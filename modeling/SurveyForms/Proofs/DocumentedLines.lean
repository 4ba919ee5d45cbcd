import SurveyForms.Proofs.Spelling

/-! Lines that are read and lines that are documented. A documented line has the tokens of a
production, each of a class that belongs at its place. Main result: the parts of a line that was
read are the tokens of its production, and the line is documented exactly if none of the words and
marks of the grammar is given by a quoted text. -/
namespace SurveyForms.Grammar

open Source (Lexeme Token TokenClass lexeme? tokens?)

/-- A question has at least one word for its type. -/
def SurveyLine.Typed : SurveyLine → Prop
  | .question _ type _ _ => type ≠ []
  | _ => True

/-- These tokens are derived by the production of the line with its parts. -/
structure SurveyLine.Documented (line : SurveyLine) (ts : List Token) : Prop where
  typed : line.Typed
  admitted : List.Forall₂ Slot.Admits line.slots ts

def ChoicesLine.Documented (line : ChoicesLine) (ts : List Token) : Prop :=
  List.Forall₂ Slot.Admits line.slots ts

/-- No quoted text stands where the grammar fixes the text. -/
def Unquoted (slots : List Slot) (ts : List Token) : Prop :=
  ∀ p ∈ slots.zip ts, p.1.fixed → p.2.cls ≠ .text

instance (slots : List Slot) (ts : List Token) : Decidable (Unquoted slots ts) :=
  inferInstanceAs (Decidable (∀ p ∈ slots.zip ts, p.1.fixed → p.2.cls ≠ .text))

/-- A text that the grammar fixes is a lexeme of the one class that belongs there. -/
def Slot.Lexical (slot : Slot) : Prop :=
  slot.fixed → ∃ cls, slot.classes = [cls] ∧ cls ≠ .text ∧
    lexeme? slot.value.toList = some ⟨cls, slot.value.toList⟩

namespace Slot

theorem lexical_keyword {s : String} (h : lexeme? s.toList = some ⟨.ident, s.toList⟩) :
    (keyword s).Lexical := fun _ => ⟨.ident, rfl, by decide, h⟩

theorem lexical_mark {s : String} (h : lexeme? s.toList = some ⟨.punct, s.toList⟩) :
    (mark s).Lexical := fun _ => ⟨.punct, rfl, by decide, h⟩

theorem lexical_of_free {slot : Slot} (h : slot.fixed = false) : slot.Lexical := by
  intro hfixed
  rw [h] at hfixed
  cases hfixed

theorem lexical_operand (s : String) : (operand s).Lexical := by
  unfold operand
  split
  · exact lexical_mark (by decide)
  · exact lexical_of_free rfl

end Slot

private theorem lexical_params (params : List Param) :
    ∀ slot ∈ params.flatMap (·.slots), slot.Lexical := by
  intro slot hslot
  obtain ⟨p, _, hslot⟩ := List.mem_flatMap.mp hslot
  simp only [Param.slots, List.mem_cons, List.not_mem_nil, or_false] at hslot
  rcases hslot with rfl | rfl <;> exact Slot.lexical_of_free rfl

private theorem lexical_condition (c : Condition) : ∀ slot ∈ c.slots, slot.Lexical := by
  cases c with
  | comparison left operator value =>
    simp only [Condition.slots, List.forall_mem_cons]
    exact ⟨Slot.lexical_operand left, Slot.lexical_of_free rfl, Slot.lexical_of_free rfl, by simp⟩
  | literal value =>
    simp only [Condition.slots, List.forall_mem_singleton]
    exact Slot.lexical_of_free rfl

private theorem lexical_command (name first : String) (others : List String) :
    ∀ slot ∈ Slot.mark "@" :: .ident name :: (first :: others).map .argument, slot.Lexical := by
  rw [List.forall_mem_cons, List.forall_mem_cons, List.forall_mem_map]
  exact ⟨Slot.lexical_mark (by decide), Slot.lexical_of_free rfl,
    fun _ _ => Slot.lexical_of_free rfl⟩

theorem SurveyLine.lexical_slots (line : SurveyLine) : ∀ slot ∈ line.slots, slot.Lexical := by
  have hcolon : (Slot.mark ":").Lexical := Slot.lexical_mark (by decide)
  have hif : (Slot.keyword "if").Lexical := Slot.lexical_keyword (by decide)
  have hlabel (label : Option String) :
      ∀ slot ∈ label.elim [] ([Slot.literal ·]), slot.Lexical := by
    cases label <;> simp [Slot.lexical_of_free, Slot.literal]
  cases line with
  | command name first others => exact lexical_command name first others
  | conditional c =>
    simp only [slots, List.forall_mem_cons, List.forall_mem_append]
    exact ⟨⟨hif, lexical_condition c⟩, hcolon, by simp⟩
  | group kind name label params c =>
    have hkind : (Slot.keyword kind.word).Lexical := by
      cases kind <;> exact Slot.lexical_keyword (by decide)
    simp only [slots, List.forall_mem_cons, List.forall_mem_append]
    refine ⟨⟨⟨⟨hkind, Slot.lexical_of_free rfl, hlabel label⟩, lexical_params params⟩, ?_⟩,
      hcolon, by simp⟩
    cases c with
    | none => simp
    | some c => exact List.forall_mem_cons.mpr ⟨hif, lexical_condition c⟩
  | question name type label params =>
    simp only [slots, List.forall_mem_cons, List.forall_mem_append, List.forall_mem_map]
    exact ⟨⟨⟨Slot.lexical_of_free rfl, fun _ _ => Slot.lexical_of_free rfl⟩, hcolon,
      hlabel label⟩, lexical_params params⟩

theorem ChoicesLine.lexical_slots (line : ChoicesLine) : ∀ slot ∈ line.slots, slot.Lexical := by
  cases line with
  | command name first others => exact lexical_command name first others
  | list name params =>
    simp only [slots, List.forall_mem_cons, List.forall_mem_append]
    exact ⟨⟨Slot.lexical_keyword (by decide), Slot.lexical_of_free rfl, lexical_params params⟩,
      Slot.lexical_mark (by decide), by simp⟩
  | choice value label params =>
    simp only [slots, List.forall_mem_cons]
    exact ⟨Slot.lexical_of_free rfl, Slot.lexical_of_free rfl, lexical_params params⟩

/-- A word or mark that is not quoted is written as it is, so its text tells its class. -/
private theorem cls_of_value {l : Lexeme} (hself : lexeme? l.raw = some l) (htext : l.cls ≠ .text)
    {cls : TokenClass} (hvalue : lexeme? l.value.toList = some ⟨cls, l.value.toList⟩) :
    l.cls = cls := by
  cases Source.shape_of_lexeme? hself with
  | text => exact absurd rfl htext
  | @varRef body _ =>
    have hdollar : (Lexeme.value ⟨.varRef, '$' :: body⟩).toList =
        '$' :: body.filter (!Text.isBlank ·) := by
      simp [Lexeme.value, Text.isBlank]
    rw [hdollar] at hvalue
    obtain ⟨raw, _, hraw⟩ := Option.map_eq_some_iff.mp
      (show ((Source.braced? _).map fun raw => (⟨.varRef, '$' :: raw⟩ : Lexeme)) = _ from hvalue)
    exact (Lexeme.mk.inj hraw).1
  | _ =>
    simp only [Lexeme.value, String.toList_ofList] at hvalue
    rw [hself] at hvalue
    exact (Lexeme.mk.inj (Option.some.inj hvalue)).1

/-- A token that is taken belongs at its place, unless it is a quoted word or mark. -/
private theorem admits_iff_of_passes {slot : Slot} (hslot : slot.Lexical) {l : Lexeme}
    (hself : lexeme? l.raw = some l) {t : Token} (hcls : l.cls = t.cls) (hvalue : l.value = t.value)
    (hpasses : slot.Passes t) : slot.Admits t ↔ (slot.fixed → t.cls ≠ .text) := by
  constructor
  · intro hadmits hfixed htext
    obtain ⟨cls, hclasses, hplain, _⟩ := hslot hfixed
    have hcls : t.cls = cls := by simpa [hclasses] using hadmits.1
    exact hplain (hcls.symm.trans htext)
  · intro hquoted
    refine ⟨?_, hpasses.1⟩
    cases hfixed : slot.fixed with
    | false => exact hpasses.2 hfixed
    | true =>
      obtain ⟨cls, hclasses, _, hlexeme⟩ := hslot hfixed
      rw [← hpasses.1, ← hvalue] at hlexeme
      rw [hclasses, List.mem_singleton, ← hcls]
      exact cls_of_value hself (hcls ▸ hquoted hfixed) hlexeme

private theorem forall₂_admits_iff {slots : List Slot} {ts : List Token}
    (hfills : List.Forall₂ Slot.Passes slots ts) (hslots : ∀ slot ∈ slots, slot.Lexical)
    (hts : ∀ t ∈ ts, ∃ l : Lexeme, lexeme? l.raw = some l ∧ l.cls = t.cls ∧ l.value = t.value) :
    List.Forall₂ Slot.Admits slots ts ↔ Unquoted slots ts := by
  induction hfills with
  | nil => simp [Unquoted]
  | cons hpasses _ ih =>
    obtain ⟨hslot, hslots⟩ := List.forall_mem_cons.mp hslots
    obtain ⟨⟨l, hself, hcls, hvalue⟩, hts⟩ := List.forall_mem_cons.mp hts
    rw [List.forall₂_cons, ih hslots hts, admits_iff_of_passes hslot hself hcls hvalue hpasses,
      Unquoted, Unquoted, List.zip_cons_cons, List.forall_mem_cons]

open Rule in
/-- A question that was read has a type. -/
private theorem typed_of_parse {ts : List Token} {line : SurveyLine}
    (h : (surveyLine.parse ts).toOption = some line) : line.Typed := by
  obtain ⟨s, hrun⟩ := matched_of_parse h
  obtain ⟨r, hr, u, v, _, _, hmatch⟩ := matched_choice (matched_named hrun)
  simp only [List.mem_cons, List.not_mem_nil, or_false] at hr
  rcases hr with rfl | rfl | rfl | rfl
  · obtain ⟨⟨_, name, first, others⟩, _, rfl⟩ := matched_map hmatch
    trivial
  · obtain ⟨⟨_, c⟩, _, rfl⟩ := matched_map hmatch
    trivial
  · obtain ⟨⟨kind, name, label, params, c, _⟩, _, rfl⟩ := matched_map (matched_named hmatch)
    trivial
  · obtain ⟨⟨name, type, _, label, params⟩, hseq, rfl⟩ := matched_map (matched_named hmatch)
    obtain ⟨_, _, hnext⟩ := matched_seq hseq
    obtain ⟨_, htype, _⟩ := matched_next hnext
    exact ne_nil_of_atLeastOnce htype

/-- What was read of a line of either grammar is its tokens, one for each slot of the production,
and the line is documented exactly if no quoted text stands for a word or mark of the grammar. -/
theorem accepted_lines_documented_iff (line : List Char) :
    (∀ v, parseLine surveyLine line = .ok v → ∃ ts, tokens? line = some ts ∧
      List.Forall₂ Slot.Passes v.slots ts ∧ (v.Documented ts ↔ Unquoted v.slots ts)) ∧
    ∀ v, parseLine choicesLine line = .ok v → ∃ ts, tokens? line = some ts ∧
      List.Forall₂ Slot.Passes v.slots ts ∧ (v.Documented ts ↔ Unquoted v.slots ts) := by
  have hlexemes {ts : List Token} (hts : tokens? line = some ts) (t : Token) (ht : t ∈ ts) :
      ∃ l : Lexeme, lexeme? l.raw = some l ∧ l.cls = t.cls ∧ l.value = t.value := by
    obtain ⟨l, hself, _, hcls, hvalue⟩ := Source.exists_lexeme_of_mem_tokens hts ht
    exact ⟨l, hself, hcls, hvalue⟩
  constructor
  · intro v hv
    have hsome := congrArg Except.toOption hv
    obtain ⟨ts, hts, hfills⟩ := forall₂_of_parseLine fills_surveyLine hsome
    have hadmits := forall₂_admits_iff hfills v.lexical_slots (hlexemes hts)
    have htyped : v.Typed := by
      rw [toOption_parseLine, hts] at hsome
      exact typed_of_parse hsome
    exact ⟨ts, hts, hfills, fun h => hadmits.mp h.admitted, fun h => ⟨htyped, hadmits.mpr h⟩⟩
  · intro v hv
    obtain ⟨ts, hts, hfills⟩ := forall₂_of_parseLine fills_choicesLine (congrArg Except.toOption hv)
    exact ⟨ts, hts, hfills, forall₂_admits_iff hfills v.lexical_slots (hlexemes hts)⟩

private def conditionalGroup : SurveyLine :=
  .group .group "g" (some "if") [⟨"hint", "5"⟩] (some (.comparison "." "=" ":"))

private def markedChoice : ChoicesLine := .choice "list" "@" [⟨"k", "v"⟩]

/-- Texts that look like words and marks of the grammar are documented as labels and values. -/
theorem conditional_group_documented :
    (∃ ts, tokens? "group g \"if\" hint 5 if . = ':':".toList = some ts ∧
      conditionalGroup.Documented ts) ∧
    ∃ ts, tokens? "'list' \"@\" k v".toList = some ts ∧ markedChoice.Documented ts := by
  constructor
  · obtain ⟨ts, hts, _, hiff⟩ :=
      (accepted_lines_documented_iff "group g \"if\" hint 5 if . = ':':".toList).1
        conditionalGroup (by decide +kernel)
    have hunquoted : ∀ ts ∈ tokens? "group g \"if\" hint 5 if . = ':':".toList,
        Unquoted conditionalGroup.slots ts := by decide +kernel
    exact ⟨ts, hts, hiff.mpr (hunquoted ts hts)⟩
  · obtain ⟨ts, hts, _, hiff⟩ :=
      (accepted_lines_documented_iff "'list' \"@\" k v".toList).2 markedChoice
        (by decide +kernel)
    have hunquoted : ∀ ts ∈ tokens? "'list' \"@\" k v".toList,
        Unquoted markedChoice.slots ts := by decide +kernel
    exact ⟨ts, hts, hiff.mpr (hunquoted ts hts)⟩

/-- Each survey line has a mark: a colon, or the mark of a command. -/
theorem SurveyLine.Documented.exists_punct {line : SurveyLine} {ts : List Token}
    (h : line.Documented ts) : ∃ t ∈ ts, t.cls = .punct := by
  have hmark : ∃ s, Slot.mark s ∈ line.slots := by
    cases line with
    | command => exact ⟨"@", by simp [slots]⟩
    | _ => exact ⟨":", by simp [slots]⟩
  obtain ⟨s, hs⟩ := hmark
  obtain ⟨t, ht, hadmits⟩ := exists_mem_of_forall₂ h.admitted hs
  exact ⟨t, ht, List.mem_singleton.mp hadmits.1⟩

/-- A quoted colon is taken for the colon of a question, though the tokens are no documented
line. -/
theorem quoted_colon_accepted : ∃ ts, tokens? "q text \":\" \"L\"".toList = some ts ∧
    parseLine surveyLine "q text \":\" \"L\"".toList =
      .ok (.question "q" ["text"] (some "L") []) ∧
    ∀ line : SurveyLine, ¬ line.Documented ts := by
  refine ⟨[⟨.ident, "q", 1⟩, ⟨.ident, "text", 3⟩, ⟨.text, ":", 8⟩, ⟨.text, "L", 12⟩],
    by decide +kernel, by decide +kernel, fun line h => ?_⟩
  obtain ⟨t, ht, hpunct⟩ := h.exists_punct
  simp only [List.mem_cons, List.not_mem_nil, or_false] at ht
  rcases ht with rfl | rfl | rfl | rfl <;> cases hpunct

end SurveyForms.Grammar
