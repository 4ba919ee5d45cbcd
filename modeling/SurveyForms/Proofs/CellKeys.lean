import SurveyForms.Proofs.Columns
import SurveyForms.Proofs.Origins
import SurveyForms.Proofs.WrappedQuestions

/-! The keys of the cells of a form. Main statement: in the survey and choices rows of a form that
compiles every key is an identifier; further settings may have any key. -/
namespace SurveyForms

open Source (Line isIdentifier)

def NamedPairs (params : List Param) : Prop := ∀ p ∈ params, isIdentifier p.key

namespace Grammar

open Source (tokens?)

/-- An identifier of a line that was read is spelled like one. -/
theorem isIdentifier_of_parseLine {rule : Rule α} {f : α → List Slot} (h : rule.Fills f)
    {line : List Char} {a : α} (hparse : (parseLine rule line).toOption = some a) {name : String}
    (hslot : Slot.ident name ∈ f a) : isIdentifier name := by
  obtain ⟨ts, hts, hfills⟩ := forall₂_of_parseLine h hparse
  obtain ⟨t, ht, hvalue, hclass⟩ := exists_mem_of_forall₂ hfills hslot
  obtain ⟨l, hself, _, hcls, hlvalue⟩ := Source.exists_lexeme_of_mem_tokens hts ht
  have hident : l.cls = .ident := hcls.trans (List.mem_singleton.mp (hclass rfl))
  have hname : l.value = name := hlvalue.trans hvalue
  exact hname ▸ isIdentifier_value hself hident

def SurveyLine.params : SurveyLine → List Param
  | .command _ _ _ | .conditional _ => []
  | .group _ _ _ params _ | .question _ _ _ params => params

def ChoicesLine.params : ChoicesLine → List Param
  | .command _ _ _ => []
  | .list _ params | .choice _ _ params => params

private theorem ident_mem_slots {params : List Param} {p : Param} (h : p ∈ params) :
    Slot.ident p.key ∈ params.flatMap (·.slots) :=
  List.mem_flatMap.mpr ⟨p, h, List.mem_cons_self⟩

theorem SurveyLine.namedPairs {rule : Rule SurveyLine} (h : rule.Fills slots) {text : List Char}
    {line : SurveyLine} (hparse : parseLine rule text = .ok line) : NamedPairs line.params := by
  intro p hp
  refine isIdentifier_of_parseLine h (congrArg Except.toOption hparse) ?_
  have hslot := ident_mem_slots hp
  cases line with
  | command | conditional => cases hp
  | group | question =>
    simp only [slots, List.cons_append, List.mem_cons, List.mem_append]
    tauto

theorem ChoicesLine.namedPairs {text : List Char} {line : ChoicesLine}
    (hparse : parseLine choicesLine text = .ok line) : NamedPairs line.params := by
  intro p hp
  refine isIdentifier_of_parseLine fills_choicesLine (congrArg Except.toOption hparse) ?_
  have hslot := ident_mem_slots hp
  cases line with
  | command => cases hp
  | list | choice =>
    simp only [slots, List.cons_append, List.mem_cons, List.mem_append]
    tauto

end Grammar

/-! Pairs of the statements of a text. -/

def SurveyLeaf.params : SurveyLeaf → List Param
  | .comment _ _ | .command _ => []
  | .question q => q.params

def SurveyHeader.params : SurveyHeader → List Param
  | .conditional _ _ => []
  | .group g => g.params

def ChoicesLeaf.params : ChoicesLeaf → List Param
  | .comment _ _ | .command _ => []
  | .choice c => c.params

theorem Survey.namedPairs {file text : String} {f : Survey}
    (h : Survey.ofSource file text = .ok f) :
    f.Each (NamedPairs ·.params) (NamedPairs ·.params) := by
  refine (Survey.each_read h).imp (fun leaf hleaf => ?_) fun header ⟨l, _, hline⟩ => ?_
  · cases leaf with
    | comment | command => exact List.forall_mem_nil _
    | question q =>
      obtain ⟨l, -, hline | hline⟩ := hleaf _ rfl
      · exact Grammar.SurveyLine.namedPairs Grammar.fills_surveyLine hline
      · exact Grammar.SurveyLine.namedPairs Grammar.fills_questionLine hline
  · have hnamed := Grammar.SurveyLine.namedPairs Grammar.fills_surveyLine hline
    cases header <;> exact hnamed

theorem Choices.namedPairs {file text : String} {f : Choices}
    (h : Choices.ofText file text = .ok f) :
    f.Each (NamedPairs ·.params) (NamedPairs ·.params) := by
  have hforest : (choicesReader file).forest file text = .ok f := h
  refine LineReader.each_of_forest (fun _ _ => ?_) (fun l _ e he => ?_) hforest
  · exact List.forall_mem_nil _
  simp only [choicesReader] at he
  cases hline : Grammar.parseLine Grammar.choicesLine l.text with
  | error d => rw [hline] at he; cases he
  | ok line =>
    have hnamed := Grammar.ChoicesLine.namedPairs hline
    rw [hline] at he
    cases line with
    | command | list | choice => cases he; first | exact hnamed | exact ⟨hnamed, by simp⟩

/-! Pairs of the parts of a form. -/

/-- The pairs of an item, and of the lists and entries in it, have identifiers as keys. -/
def FormItem.Named : FormItem → Prop
  | .question q => NamedPairs q.params
  | .required _ | .settings _ => True
  | .choices tree => tree.Each (NamedPairs ·.params) (NamedPairs ·.params)

def FormSection.Named : FormSection → Prop
  | .conditional _ | .included => True
  | .group g => NamedPairs g.params

variable {s : Sources} {name src : String}

theorem FormItem.IsFrom.named {item : FormItem} (h : item.IsFrom s name src) : item.Named := by
  cases h with
  | question hf hq =>
    obtain ⟨_, _, _, hread⟩ := hf
    exact (Forest.each_iff.mp (Survey.namedPairs hread)).1 _ hq
  | required | settings => trivial
  | choices htree =>
    refine htree.imp (fun c hc => ?_) fun l hl => ?_
    · obtain ⟨f, ⟨_, _, _, hread⟩, hc⟩ := hc
      exact (Forest.each_iff.mp (Choices.namedPairs hread)).1 _ hc
    · obtain ⟨f, ⟨_, _, _, hread⟩, hl⟩ := hl
      exact (Forest.each_iff.mp (Choices.namedPairs hread)).2 _ hl

theorem FormSection.IsFrom.named {part : FormSection} (h : part.IsFrom s name src) :
    part.Named := by
  cases h with
  | @header f header hf hh =>
    obtain ⟨_, _, _, hread⟩ := hf
    have hnamed := (Forest.each_iff.mp (Survey.namedPairs hread)).2 _ hh
    cases header with
    | conditional => trivial
    | group => exact hnamed
  | included => trivial

theorem Sources.ResolvedText.named {tree : FormTree} (h : s.ResolvedText name src tree) :
    tree.Each FormItem.Named FormSection.Named :=
  h.each.imp (fun _ => FormItem.IsFrom.named) fun _ => FormSection.IsFrom.named

/-! Keys of rows. -/

/-- Pairs set identifiers only. -/
theorem isIdentifier_of_ownValue {key : String} {params : List Param} (h : NamedPairs params)
    (hvalue : (ownValue key params).isSome) : isIdentifier key := by
  rw [ownValue, lastValue, Option.isSome_map, List.find?_isSome] at hvalue
  obtain ⟨renamed, hmem, hkey⟩ := hvalue
  obtain ⟨p, hp, rfl⟩ := List.mem_map.mp (List.mem_reverse.mp hmem)
  rw [← of_decide_eq_true hkey, Param.renamed]
  split
  · exact (by decide : isIdentifier Scope.relevanceKey)
  · exact h p hp

theorem isIdentifier_of_inherited {key : String} {way : List FormStep}
    (hway : ∀ step ∈ way, step.Each FormSection.Named)
    (hvalue : (inherited key way).isSome) : isIdentifier key := by
  obtain ⟨step, hstep, hsets⟩ := List.findSome?_isSome_iff.mp hvalue
  have hnamed := hway step (List.mem_reverse.mp hstep)
  cases step with
  | required value =>
    simp only [FormStep.sets, Option.isSome_ite] at hsets
    rw [hsets]
    decide
  | within part =>
    cases part with
    | conditional | included => cases hsets
    | group g =>
      simp only [FormStep.sets] at hsets
      split at hsets
      · cases hsets
      · exact isIdentifier_of_ownValue hnamed hsets

/-- The keys of cells that no pair sets. -/
theorem isIdentifier_fixed : ∀ key ∈ ["name", "type", "label", "calculation", "value", "list_name",
    Scope.relevanceKey], isIdentifier key := by
  decide

/-- Of two fixed cells the one that is found. -/
private theorem eq_or_eq_of_isSome_ite {key a b : String} {v w : α}
    (h : (if key = a then some v else if key = b then some w else none).isSome) :
    key = a ∨ key = b := by
  split at h
  · exact .inl ‹_›
  · split at h
    · exact .inr ‹_›
    · cases h

theorem FormEntry.isIdentifier_of_intrinsic {key : String} {entry : FormEntry}
    (h : (entry.intrinsic key).isSome) : isIdentifier key := by
  have hfixed : key ∈ ["name", "type", "label", "calculation"] := by
    cases entry <;> simp only [intrinsic] at h <;> grind
  exact isIdentifier_fixed key (List.Sublist.subset (by simp) hfixed)

theorem Occurrence.isIdentifier_of_mem_keys {o : Occurrence}
    (hentry : o.entry.Each FormItem.Named FormSection.Named)
    (hway : ∀ step ∈ o.way, step.Each FormSection.Named) {key : String} (h : key ∈ o.row.keys) :
    isIdentifier key := by
  by_cases hrelevance : key = Scope.relevanceKey
  · exact isIdentifier_fixed key (by simp [hrelevance])
  rw [Row.mem_keys_iff] at h
  by_cases hclosing : ∃ g, o.entry = .closing g
  · obtain ⟨g, hg⟩ := hclosing
    simp only [row, hg, Group.closingRow, Row.get?_ofList_pair (by decide : "type" ≠ "name")] at h
    rcases eq_or_eq_of_isSome_ite h with rfl | rfl <;> decide
  have hparams : NamedPairs o.entry.params := by
    cases hcase : o.entry with
    | question q => rwa [hcase] at hentry
    | opening g => rwa [hcase] at hentry
    | closing g => exact absurd ⟨g, hcase⟩ hclosing
  rw [o.row_get? (not_exists.mp hclosing) hrelevance, Option.isSome_or, Option.isSome_or,
    Bool.or_eq_true, Bool.or_eq_true] at h
  rcases h with (hown | hinherited) | hintrinsic
  · exact isIdentifier_of_ownValue hparams hown
  · exact isIdentifier_of_inherited hway hinherited
  · exact FormEntry.isIdentifier_of_intrinsic hintrinsic

theorem ListedChoice.isIdentifier_of_mem_keys {e : ListedChoice}
    (hchoice : NamedPairs e.choice.params) (hlists : ∀ l ∈ e.lists, NamedPairs l.params)
    {key : String} (h : key ∈ e.row.keys) : isIdentifier key := by
  by_cases hrelevance : key = Scope.relevanceKey
  · exact isIdentifier_fixed key (by simp [hrelevance])
  rw [Row.mem_keys_iff, e.row_get? hrelevance, Option.isSome_or, Option.isSome_or, Bool.or_eq_true,
    Bool.or_eq_true] at h
  rcases h with (hown | hinherited) | hintrinsic
  · exact isIdentifier_of_ownValue hchoice hown
  · obtain ⟨l, hl, hsets⟩ := List.findSome?_isSome_iff.mp hinherited
    rw [ChoiceList.sets, Option.isSome_or, Bool.or_eq_true] at hsets
    rcases hsets with hown | hname
    · exact isIdentifier_of_ownValue (hlists l (List.mem_reverse.mp hl)) hown
    · obtain rfl : key = "list_name" := by simpa using hname
      decide
  · rcases eq_or_eq_of_isSome_ite hintrinsic with rfl | rfl <;> decide

/-- Every key of the survey and choices rows of a form is an identifier. -/
theorem Form.CompiledFrom.isIdentifier_keys {now : Moment} {form : Form}
    (h : Form.CompiledFrom s now name src form) :
    ∀ row ∈ form.survey ++ form.choices, ∀ key ∈ row.keys, isIdentifier key := by
  obtain ⟨tree, htree, rfl⟩ := Form.exists_resolvedText_of_ofText h.result_ofText
  have hnamed := htree.named
  refine List.forall_mem_append.mpr ⟨fun row hrow key hkey => ?_, fun row hrow key hkey => ?_⟩
  · have hsurvey := tree.survey_expand now []
    rw [show (tree.expand now ∅).survey = _ from hsurvey, List.mem_map] at hrow
    obtain ⟨o, ho, rfl⟩ := hrow
    obtain ⟨hentry, hway⟩ := FormTree.each_occurrences hnamed (List.forall_mem_nil _) o ho
    exact Occurrence.isIdentifier_of_mem_keys hentry hway hkey
  · rw [tree.choices_expand now ∅, List.mem_flatMap] at hrow
    obtain ⟨entries, hentries, hrow⟩ := hrow
    obtain ⟨e, he, rfl⟩ := List.mem_map.mp hrow
    obtain ⟨hchoice, hlists⟩ := ChoiceTree.each_entries
      (FormTree.each_choiceTrees hnamed entries hentries) (List.forall_mem_nil _) e he
    exact ListedChoice.isIdentifier_of_mem_keys hchoice hlists hkey

end SurveyForms
