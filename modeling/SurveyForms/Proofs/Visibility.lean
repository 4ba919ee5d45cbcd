import Mathlib.Data.List.DropRight
import SurveyForms.Proofs.Occurrences
import SurveyForms.Proofs.Scope

/-! Under which conditions a question is shown. A row carries the conditions met since the
innermost group around it and its own; put together with those of the groups around it they are
all the conditions on the way. Whether a condition holds is not a matter of the form. -/
namespace SurveyForms

/-- The condition that the pairs of a statement set: the last `if` pair counts before the last
`relevance` pair. -/
def pairCondition (params : List Param) : Option String :=
  (lastValue "if" params).or (lastValue Scope.relevanceKey params)

/-- A group's own condition. One in front of the colon counts before its pairs. -/
def Group.ownCondition (g : Group) : Option String :=
  match g.condition with
  | some condition => some condition.expression
  | none => pairCondition g.params

namespace FormStep

def condition : FormStep → Option String
  | .required _ => none
  | .within (.conditional condition) => some condition.expression
  | .within (.group g) => g.ownCondition
  | .within .included => none

def entersGroup : FormStep → Bool
  | .within (.group _) => true
  | _ => false

end FormStep

def FormEntry.ownCondition : FormEntry → Option String
  | .question q => pairCondition q.params
  | .opening g => g.ownCondition
  | .closing _ => none

/-- All of the conditions at once, joined from the left. -/
def conjunction : List String → Option String
  | [] => none
  | first :: others => some (others.foldl Scope.both first)

example : conjunction ["a", "b", "c"] = some "((a) and (b)) and (c)" := by decide

/-- The conditions on a way since it last entered a group. -/
def pendingConditions (way : List FormStep) : List String :=
  (way.rtakeWhile (!·.entersGroup)).filterMap FormStep.condition

/-- The opening entries of the groups that a way goes on to enter behind `before`, outermost
first. -/
def openings (before : List FormStep) : List FormStep → List Occurrence
  | [] => []
  | .within (.group g) :: way =>
    ⟨before, .opening g⟩ :: openings (before ++ [.within (.group g)]) way
  | step :: way => openings (before ++ [step]) way

namespace Occurrence

/-- The conditions that the row of an entry carries. -/
def conditions (o : Occurrence) : List String :=
  pendingConditions o.way ++ o.entry.ownCondition.toList

/-- The opening entries of the groups around an entry, outermost first. -/
def enclosing (o : Occurrence) : List Occurrence := openings [] o.way

end Occurrence

private theorem conjunction_concat (conditions : List String) (last : String) :
    conjunction (conditions ++ [last]) =
      match conjunction conditions with
      | none => some last
      | some before => some (Scope.both before last) := by
  cases conditions with
  | nil => rfl
  | cons first others => simp [conjunction]

private theorem pending_enter (way : List FormStep) (g : Group) :
    pendingConditions (way ++ [.within (.group g)]) = [] := by
  rw [pendingConditions, List.rtakeWhile_concat_neg _ _ _ (by simp [FormStep.entersGroup])]
  rfl

private theorem pending_pass (way : List FormStep) (step : FormStep)
    (h : step.entersGroup = false) :
    pendingConditions (way ++ [step]) = pendingConditions way ++ step.condition.toList := by
  rw [pendingConditions, List.rtakeWhile_concat_pos _ _ _ (by simp [h]), List.filterMap_append]
  cases hs : step.condition <;> simp [hs, pendingConditions]

/-- A scope that is merged over another joins its condition, if it has one, to those before. -/
private theorem merge_conjunction {outer inner : Scope} {conditions : List String}
    (h : outer.get? Scope.relevanceKey = conjunction conditions) :
    (outer.merge inner).get? Scope.relevanceKey =
      conjunction (conditions ++ (inner.get? Scope.relevanceKey).toList) := by
  rw [Scope.get?_merge_relevance, h]
  cases inner.get? Scope.relevanceKey with
  | none =>
    rw [Option.toList_none, List.append_nil]
    cases conjunction conditions <;> rfl
  | some last =>
    rw [Option.toList_some, conjunction_concat]
    cases conjunction conditions <;> rfl

theorem Group.ownScope_relevance (g : Group) :
    g.ownScope.get? Scope.relevanceKey = g.ownCondition := by
  unfold ownScope ownCondition
  cases g.condition with
  | none => exact Scope.get?_ofParams_relevance g.params
  | some condition => simp [Row.get?_insert]

/-- The relevance in force at the end of a way is that of the conditions since its last group. -/
theorem scopeAt_relevance (way : List FormStep) :
    (scopeAt way).get? Scope.relevanceKey = conjunction (pendingConditions way) := by
  induction way using List.reverseRecOn with
  | nil => rfl
  | append_singleton way step ih =>
    rw [scopeAt_concat]
    cases step with
    | required value =>
      rw [pending_pass way _ rfl, FormStep.scope, Row.get?_insert, if_neg (by decide), ih]
      simp [FormStep.condition]
    | within part =>
      cases part with
      | conditional condition =>
        rw [pending_pass way _ rfl, FormStep.scope, merge_conjunction ih]
        simp [Row.get?_ofList, FormStep.condition]
      | group g =>
        rw [pending_enter, FormStep.scope, Group.bodyScope, Row.get?_eraseAll,
          if_pos (by decide)]
        rfl
      | included =>
        rw [pending_pass way _ rfl, FormStep.scope, ih]
        simp [FormStep.condition]

/-- A row that starts without relevance gets that of the scope it is laid under. -/
private theorem overlay_relevance {base : Row} {scope own : Scope} {conditions : List String}
    (hbase : base.get? Scope.relevanceKey = none)
    (h : scope.get? Scope.relevanceKey = conjunction conditions) :
    (base.overlay (scope.merge own)).get? Scope.relevanceKey =
      conjunction (conditions ++ (own.get? Scope.relevanceKey).toList) := by
  rw [Row.get?_overlay, hbase, Option.or_none, merge_conjunction h]

theorem Occurrence.row_relevance (o : Occurrence) (h : ∀ g, o.entry ≠ .closing g) :
    o.row.get? Scope.relevanceKey = conjunction o.conditions := by
  obtain ⟨way, entry⟩ := o
  have hscope := scopeAt_relevance way
  cases entry with
  | question q =>
    rw [conditions, FormEntry.ownCondition, pairCondition, ← Scope.get?_ofParams_relevance]
    refine overlay_relevance ?_ hscope
    cases q.label with
    | none => simp [Row.get?_ofList, Scope.relevanceKey]
    | some label =>
      simp only [Row.get?_insert, Row.get?_ofList, Scope.relevanceKey]
      split <;> simp
  | opening g =>
    rw [conditions, FormEntry.ownCondition, ← g.ownScope_relevance]
    refine overlay_relevance ?_ hscope
    cases g.label with
    | none => simp [Row.get?_ofList, Scope.relevanceKey]
    | some label => simp [Row.get?_insert, Row.get?_ofList, Scope.relevanceKey]
  | closing g => exact absurd rfl (h g)

/-- The conditions of the groups that a way enters, with those it ends under, are those it had at
first and all that its steps add. -/
private theorem openings_conditions (before way : List FormStep) :
    (openings before way).flatMap Occurrence.conditions ++ pendingConditions (before ++ way) =
      pendingConditions before ++ way.filterMap FormStep.condition := by
  -- On the rest of the way. Entering a group empties what is pending and puts it on a row.
  induction way generalizing before with
  | nil => simp [openings]
  | cons step way ih =>
    have hnext := ih (before ++ [step])
    rw [List.append_assoc, List.singleton_append] at hnext
    have hpass (h : step.entersGroup = false)
        (ho : openings before (step :: way) = openings (before ++ [step]) way) :
        (openings before (step :: way)).flatMap Occurrence.conditions ++
          pendingConditions (before ++ step :: way) =
        pendingConditions before ++ (step :: way).filterMap FormStep.condition := by
      rw [ho, hnext, pending_pass before step h]
      cases hs : step.condition <;> simp [hs]
    cases step with
    | required value => exact hpass rfl rfl
    | within part =>
      cases part with
      | conditional condition => exact hpass rfl rfl
      | included => exact hpass rfl rfl
      | group g =>
        rw [openings, List.flatMap_cons, List.append_assoc, hnext, pending_enter]
        cases hg : g.ownCondition <;>
          simp [Occurrence.conditions, FormEntry.ownCondition, FormStep.condition, hg]

/-- An entry of a tree lies behind the place of the tree, and the groups entered on the way from
there to it open in the tree. -/
private theorem way_of_mem_occurrences {tree : FormTree} {way : List FormStep} {o : Occurrence}
    (h : o ∈ tree.occurrences way) :
    ∃ more, o.way = way ++ more ∧ ∀ b ∈ openings way more, b ∈ tree.occurrences way := by
  induction tree generalizing way with
  | nil => simp [FormTree.occurrences] at h
  | leaf item rest ih =>
    cases item with
    | question q =>
      rcases List.mem_cons.mp h with rfl | h
      · exact ⟨[], by simp, by simp [openings]⟩
      · obtain ⟨more, hway, hsub⟩ := ih h
        exact ⟨more, hway, fun b hb => List.mem_cons_of_mem _ (hsub b hb)⟩
    | required value =>
      obtain ⟨more, hway, hsub⟩ := ih h
      exact ⟨.required value :: more, by simpa using hway, hsub⟩
    | settings f => exact ih h
    | choices c => exact ih h
  | block part body rest ihb ihr =>
    cases part with
    | conditional condition =>
      rcases List.mem_append.mp h with h | h
      · obtain ⟨more, hway, hsub⟩ := ihb h
        exact ⟨.within (.conditional condition) :: more, by simpa using hway,
          fun b hb => List.mem_append_left _ (hsub b hb)⟩
      · obtain ⟨more, hway, hsub⟩ := ihr h
        exact ⟨more, hway, fun b hb => List.mem_append_right _ (hsub b hb)⟩
    | included =>
      rcases List.mem_append.mp h with h | h
      · obtain ⟨more, hway, hsub⟩ := ihb h
        exact ⟨.within .included :: more, by simpa using hway,
          fun b hb => List.mem_append_left _ (hsub b hb)⟩
      · obtain ⟨more, hway, hsub⟩ := ihr h
        exact ⟨more, hway, fun b hb => List.mem_append_right _ (hsub b hb)⟩
    | group g =>
      simp only [FormTree.occurrences, List.cons_append, List.mem_cons, List.mem_append] at h ⊢
      rcases h with rfl | h | rfl | h
      · exact ⟨[], by simp, by simp [openings]⟩
      · obtain ⟨more, hway, hsub⟩ := ihb h
        refine ⟨.within (.group g) :: more, by simpa using hway, fun b hb => ?_⟩
        rcases List.mem_cons.mp hb with rfl | hb
        · exact .inl rfl
        · exact .inr (.inl (hsub b hb))
      · exact ⟨[], by simp, by simp [openings]⟩
      · obtain ⟨more, hway, hsub⟩ := ihr h
        exact ⟨more, hway, fun b hb => .inr (.inr (.inr (hsub b hb)))⟩

/-- Flattening keeps visibility. The row of a question or of the start of a group has exactly its
conditions as relevance, none if there are none; and the conditions on the rows of the groups
around a question, with those of its own row, are the conditions of everything that holds the
question, from the outside in, and its own. -/
theorem Form.visibility_of_questions_kept {s : Sources} {now : Moment} {path : String}
    {form : Form} (h : (Form.ofFile s now path).result = .ok form) :
    (∃ tree, s.Resolved path tree) ∧ ∀ tree, s.Resolved path tree →
      form.survey = (tree.occurrences []).map Occurrence.row ∧
      ∀ o ∈ tree.occurrences [],
        ((∀ g, o.entry ≠ .closing g) →
          o.row.get? Scope.relevanceKey = conjunction o.conditions) ∧
        ∀ q, o.entry = .question q →
          (∀ b ∈ o.enclosing, b ∈ tree.occurrences []) ∧
          o.enclosing.flatMap Occurrence.conditions ++ o.conditions =
            o.way.filterMap FormStep.condition ++ (pairCondition q.params).toList := by
  obtain ⟨hexists, hall⟩ := forall_resolved_of_ofFile
    (P := fun tree form => form.survey = (tree.occurrences []).map Occurrence.row) h
    fun tree => tree.survey_expand now []
  refine ⟨hexists, fun tree htree => ⟨hall tree htree, fun o ho => ⟨o.row_relevance, ?_⟩⟩⟩
  intro q hq
  obtain ⟨more, hway, hsub⟩ := way_of_mem_occurrences ho
  rw [List.nil_append] at hway
  subst hway
  refine ⟨hsub, ?_⟩
  have hconditions := openings_conditions [] o.way
  rw [List.nil_append] at hconditions
  rw [Occurrence.conditions, ← List.append_assoc, Occurrence.enclosing, hconditions, hq]
  rfl

theorem sampleForm_visibility_kept :
    ∃ tree, sampleFiles.sources.Resolved "/form.comb" tree ∧
      sampleForm.survey = (tree.occurrences []).map Occurrence.row ∧
      ∀ o ∈ tree.occurrences [], ∀ q, o.entry = .question q →
        o.row.get? Scope.relevanceKey = conjunction o.conditions ∧
        o.enclosing.flatMap Occurrence.conditions ++ o.conditions =
          o.way.filterMap FormStep.condition ++ (pairCondition q.params).toList := by
  obtain ⟨⟨tree, htree⟩, hall⟩ := Form.visibility_of_questions_kept sampleForm_compiles
  refine ⟨tree, htree, (hall tree htree).1, fun o ho q hq => ?_⟩
  obtain ⟨hrow, hconditions⟩ := (hall tree htree).2 o ho
  exact ⟨hrow (by simp [hq]), (hconditions q hq).2⟩

end SurveyForms
