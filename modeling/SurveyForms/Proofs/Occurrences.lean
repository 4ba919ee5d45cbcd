import SurveyForms.Files.FileSet
import SurveyForms.Proofs.Resolution

/-! The parts of a form that give survey rows, in order, each with the way from the top of the form
to it. A row is found from its part and that way alone; nothing beside the way counts. -/
namespace SurveyForms

/-- One step on the way to a part of a form. -/
inductive FormStep where
  /-- Past a `required` command of the same block. -/
  | required (value : String)
  /-- Into the body of a part. -/
  | within (part : FormSection)
  deriving DecidableEq, Repr

namespace FormStep

def scope (outer : Scope) : FormStep → Scope
  | .required value => outer.insert "required" value
  | .within (.conditional condition) =>
    outer.merge (Row.ofList [(Scope.relevanceKey, condition.expression)])
  | .within (.group g) => g.bodyScope outer
  | .within .included => outer

end FormStep

def scopeAt (way : List FormStep) : Scope := way.foldl FormStep.scope ∅

theorem scopeAt_concat (way : List FormStep) (step : FormStep) :
    scopeAt (way ++ [step]) = step.scope (scopeAt way) := by
  simp [scopeAt]

/-- What a survey row is made from. A group has a row at either end. -/
inductive FormEntry where
  | question (question : Question)
  | opening (group : Group)
  | closing (group : Group)
  deriving DecidableEq, Repr

/-- An entry at its place. -/
structure Occurrence where
  way : List FormStep
  entry : FormEntry
  deriving DecidableEq, Repr

namespace Occurrence

def row (o : Occurrence) : Row :=
  match o.entry with
  | .question q => q.row (scopeAt o.way)
  | .opening g => g.openingRow (scopeAt o.way)
  | .closing g => g.closingRow

end Occurrence

namespace FormTree

/-- The entries of a tree in order, found at the end of `way`. A group's body stands between its
two entries; settings, choices and commands have none of their own. -/
def occurrences (way : List FormStep) : FormTree → List Occurrence
  | .nil => []
  | .leaf (.question q) rest => ⟨way, .question q⟩ :: occurrences way rest
  | .leaf (.required value) rest => occurrences (way ++ [.required value]) rest
  | .leaf (.settings _) rest => occurrences way rest
  | .leaf (.choices _) rest => occurrences way rest
  | .block (.conditional condition) body rest =>
    occurrences (way ++ [.within (.conditional condition)]) body ++ occurrences way rest
  | .block (.group g) body rest =>
    ⟨way, .opening g⟩ :: occurrences (way ++ [.within (.group g)]) body ++
      ⟨way, .closing g⟩ :: occurrences way rest
  | .block .included body rest =>
    occurrences (way ++ [.within .included]) body ++ occurrences way rest

/-- How many questions a tree has, included files counted where they stand. -/
def questionCount : FormTree → Nat
  | .nil => 0
  | .leaf (.question _) rest => questionCount rest + 1
  | .leaf _ rest => questionCount rest
  | .block _ body rest => questionCount body + questionCount rest

def groupCount : FormTree → Nat
  | .nil => 0
  | .leaf _ rest => groupCount rest
  | .block (.group _) body rest => groupCount body + groupCount rest + 1
  | .block _ body rest => groupCount body + groupCount rest

/-- Expanding a tree reads its entries off in order, each under the scope of its way. -/
theorem survey_expand (now : Moment) (tree : FormTree) (way : List FormStep) :
    (tree.expand now (scopeAt way)).survey = (tree.occurrences way).map Occurrence.row := by
  -- On the tree; the way is general, since a body and the statements behind a `required` command
  -- are read at the end of a longer one.
  induction tree generalizing way with
  | nil => rfl
  | leaf item rest ih =>
    cases item with
    | question q => simp [expand, occurrences, Form.append, Occurrence.row, ih]
    | required value =>
      have h := ih (way ++ [.required value])
      rw [scopeAt_concat] at h
      simpa [expand, occurrences, FormStep.scope] using h
    | settings f => simp [expand, occurrences, Form.append, ih]
    | choices c => simp [expand, occurrences, Form.append, ih]
  | block part body rest ihb ihr =>
    have hb := ihb (way ++ [.within part])
    rw [scopeAt_concat] at hb
    cases part with
    | conditional condition =>
      rw [occurrences, List.map_append, ← hb, ← ihr]
      rfl
    | group g =>
      rw [occurrences, List.cons_append, List.map_cons, List.map_append, List.map_cons, ← hb, ← ihr]
      rfl
    | included =>
      rw [occurrences, List.map_append, ← hb, ← ihr]
      rfl

theorem length_occurrences (tree : FormTree) (way : List FormStep) :
    (tree.occurrences way).length = tree.questionCount + 2 * tree.groupCount := by
  induction tree generalizing way with
  | nil => rfl
  | leaf item rest ih =>
    cases item with
    | question q =>
      simp only [occurrences, questionCount, groupCount, List.length_cons, ih]
      omega
    | required value | settings f | choices c =>
      simp only [occurrences, questionCount, groupCount, ih]
  | block part body rest ihb ihr =>
    cases part with
    | conditional condition | included =>
      simp only [occurrences, questionCount, groupCount, List.length_append, ihb, ihr]
      omega
    | group g =>
      simp only [occurrences, questionCount, groupCount, List.cons_append, List.length_cons,
        List.length_append, ihb, ihr]
      omega

end FormTree

/-- The survey rows of a form are the entries of its resolved tree, in order and each once: one
row for a question, two around the rows of a body for a group, and none for anything else. -/
theorem Form.survey_rows_in_source_order {s : Sources} {now : Moment} {path : String} {form : Form}
    (h : (Form.ofFile s now path).result = .ok form) :
    (∃ tree, s.Resolved path tree) ∧ ∀ tree, s.Resolved path tree →
      form.survey = (tree.occurrences []).map Occurrence.row ∧
      form.survey.length = tree.questionCount + 2 * tree.groupCount := by
  refine forall_resolved_of_ofFile (P := fun tree form =>
    form.survey = (tree.occurrences []).map Occurrence.row ∧
    form.survey.length = tree.questionCount + 2 * tree.groupCount) h fun tree => ?_
  have hrows := tree.survey_expand now []
  refine ⟨hrows, ?_⟩
  calc (tree.expand now ∅).survey.length
      = ((tree.occurrences []).map Occurrence.row).length := congrArg List.length hrows
    _ = tree.questionCount + 2 * tree.groupCount := by
      rw [List.length_map, tree.length_occurrences []]

/-- A conditional group with one file in it twice, the first time under a further condition. -/
def sampleFiles : FileSet := FileSet.ofList
  [("/form.comb", "group g if . > 1:\n  if . > 2:\n    @include \"part.comb\" N 1\n" ++
      "  @required yes\n  @include \"part.comb\" N 2\nlast note:"),
    ("/part.comb", "q$\x7b!N\x7d text: if c")]

def sampleForm : Form where
  survey :=
    [Row.ofList [("name", "g"), ("relevance", ". > 1"), ("type", "begin group")],
      Row.ofList [("name", "q1"), ("relevance", "(. > 2) and (c)"), ("type", "text")],
      Row.ofList [("name", "q2"), ("relevance", "c"), ("required", "yes"), ("type", "text")],
      Row.ofList [("name", "g"), ("type", "end group")],
      Row.ofList [("name", "last"), ("type", "note")]]
  choices := []
  settings := none

theorem sampleForm_compiles :
    (Form.ofFile sampleFiles.sources ⟨0, 0⟩ "/form.comb").result = .ok sampleForm :=
  eq_ok_of_toOption (by decide +kernel)

theorem sampleForm_rows_in_source_order :
    ∃ tree, sampleFiles.sources.Resolved "/form.comb" tree ∧
      sampleForm.survey = (tree.occurrences []).map Occurrence.row ∧
      tree.questionCount + 2 * tree.groupCount = 5 := by
  obtain ⟨⟨tree, htree⟩, hall⟩ := Form.survey_rows_in_source_order sampleForm_compiles
  exact ⟨tree, htree, (hall tree htree).1, (hall tree htree).2.symm⟩

end SurveyForms
