import Mathlib.Data.List.Forall2
import SurveyForms.Proofs.Inheritance
import SurveyForms.Proofs.Session
import SurveyForms.Proofs.Visibility

/-! The choice rows of a form: which entries they come from, in which order, and where their cells
come from. The survey around a choices command has no part in them. -/
namespace SurveyForms

/-- An entry of a choices tree with the lists around it, outermost first. -/
structure ListedChoice where
  lists : List ChoiceList
  choice : Choice
  deriving DecidableEq, Repr

/-- The entries of a tree in order, found inside some lists. -/
def ChoiceTree.entries (lists : List ChoiceList) : ChoiceTree → List ListedChoice
  | .nil => []
  | .leaf c rest => ⟨lists, c⟩ :: entries lists rest
  | .block l body rest => entries (lists ++ [l]) body ++ entries lists rest

def listScope (lists : List ChoiceList) : Scope :=
  lists.foldl (fun outer l => (outer.insert "list_name" l.name).overlay (Scope.ofParams l.params)) ∅

/-- What a list sets under a key for the entries inside it. -/
def ChoiceList.sets (key : String) (l : ChoiceList) : Option String :=
  (ownValue key l.params).or (if key = "list_name" then some l.name else none)

namespace ListedChoice

/-- The row of an entry. Here relevance adds up, unlike at the lists. -/
def row (e : ListedChoice) : Row :=
  (Row.ofList [("value", e.choice.value), ("label", e.choice.label)]).overlay
    ((listScope e.lists).merge (Scope.ofParams e.choice.params))

/-- What the innermost list that sets a key sets. -/
def inherited (key : String) (e : ListedChoice) : Option String :=
  e.lists.reverse.findSome? (ChoiceList.sets key)

def listCondition (e : ListedChoice) : Option String :=
  e.lists.reverse.findSome? fun l => pairCondition l.params

def intrinsic (key : String) (e : ListedChoice) : Option String :=
  if key = "value" then some e.choice.value
  else if key = "label" then some e.choice.label
  else none

end ListedChoice

/-- The choices trees of a form in order, those inside blocks and included files in their
places. -/
def FormTree.choiceTrees : FormTree → List ChoiceTree
  | .nil => []
  | .leaf (.choices c) rest => c :: choiceTrees rest
  | .leaf _ rest => choiceTrees rest
  | .block _ body rest => choiceTrees body ++ choiceTrees rest

/-- The tree of a choices file with some names bound in it. -/
def Sources.Lists (s : Sources) (path : String) (bindings : Row) (tree : ChoiceTree) : Prop :=
  ∃ text src file, s.text path = .ok text ∧ Source.substitute path text bindings = .ok src ∧
    Choices.ofText path src = .ok file ∧ file.Resolves s tree

/-- The choices commands that stand for some commands of a survey: those of an included file
stand in the place of the command that includes it. -/
inductive Sources.Calls (s : Sources) : List Command → List Command → Prop
  | nil : Calls s [] []
  | choices {c : Command} {rest calls : List Command} (hname : c.name = "choices")
      (htail : Calls s rest calls) : Calls s (c :: rest) (c :: calls)
  | included {c : Command} {src : String} {file : Survey} {rest inner calls : List Command}
      (hname : c.name = "include") (hsrc : s.Supplies c src)
      (hfile : Survey.ofSource c.target src = .ok file) (hbody : Calls s file.commands inner)
      (htail : Calls s rest calls) : Calls s (c :: rest) (inner ++ calls)
  | other {c : Command} {rest calls : List Command} (hchoices : c.name ≠ "choices")
      (hinclude : c.name ≠ "include") (htail : Calls s rest calls) : Calls s (c :: rest) calls

/-- The files that some commands of a choices source name, directly or in the files they
include. -/
inductive Sources.Names (s : Sources) : List Command → String → Prop
  | here {cs : List Command} {c : Command} (hc : c ∈ cs) : Names s cs c.target
  | deeper {cs : List Command} {c : Command} {src path : String} {file : Choices} (hc : c ∈ cs)
      (hsrc : s.Supplies c src) (hfile : Choices.ofText c.target src = .ok file)
      (h : Names s file.commands path) : Names s cs path

/-- The files that a choices file with some names bound in it is made from. -/
def Sources.Reads (s : Sources) (path : String) (bindings : Row) (file : String) : Prop :=
  file = path ∨ ∃ text src choices, s.text path = .ok text ∧
    Source.substitute path text bindings = .ok src ∧ Choices.ofText path src = .ok choices ∧
      s.Names choices.commands file

namespace ChoiceList

/-- Merging a list's name sets it: only relevance adds up. -/
private theorem scope_eq (outer : Scope) (l : ChoiceList) :
    l.scope outer = (outer.insert "list_name" l.name).overlay (Scope.ofParams l.params) := by
  have hnone : (Row.ofList [("list_name", l.name)]).get? Scope.relevanceKey = none := rfl
  have hmerge : outer.merge (Row.ofList [("list_name", l.name)]) =
      outer.insert "list_name" l.name := by
    unfold Scope.merge
    rw [hnone]
    cases outer.get? Scope.relevanceKey <;> rfl
  rw [scope, hmerge]

end ChoiceList

theorem listScope_concat (lists : List ChoiceList) (l : ChoiceList) :
    listScope (lists ++ [l]) = l.scope (listScope lists) := by
  rw [l.scope_eq, listScope, List.foldl_append]
  rfl

theorem listScope_get? {key : String} (hkey : key ≠ Scope.relevanceKey)
    (lists : List ChoiceList) :
    (listScope lists).get? key = lists.reverse.findSome? (ChoiceList.sets key) := by
  induction lists using List.reverseRecOn with
  | nil => rfl
  | append_singleton lists l ih =>
    rw [listScope_concat, l.scope_eq, Row.get?_overlay, Row.get?_insert, Scope.get?_ofParams hkey,
      ih, List.reverse_append, List.reverse_singleton, List.findSome?_append,
      List.findSome?_singleton, ChoiceList.sets]
    split
    · rw [Option.or_assoc, Option.some_or]
    · rw [Option.or_none]

/-- Of the lists around an entry the innermost condition counts alone. -/
theorem listScope_relevance (lists : List ChoiceList) :
    (listScope lists).get? Scope.relevanceKey =
      lists.reverse.findSome? fun l => pairCondition l.params := by
  induction lists using List.reverseRecOn with
  | nil => rfl
  | append_singleton lists l ih =>
    rw [listScope_concat, l.scope_eq, Row.get?_overlay, Row.get?_insert, if_neg (by decide),
      Scope.get?_ofParams_relevance, ih, List.reverse_append, List.reverse_singleton,
      List.findSome?_append, List.findSome?_singleton, pairCondition]

namespace ListedChoice

/-- The cells of a choice row but its relevance. -/
theorem row_get? (e : ListedChoice) {key : String} (hkey : key ≠ Scope.relevanceKey) :
    e.row.get? key =
      ((ownValue key e.choice.params).or (e.inherited key)).or (e.intrinsic key) := by
  rw [row, Row.get?_overlay, Scope.get?_merge_of_ne hkey, Scope.get?_ofParams hkey,
    listScope_get? hkey, Row.get?_ofList_pair (by decide)]
  rfl

/-- An entry adds its own condition to that of its lists. -/
theorem row_relevance (e : ListedChoice) :
    e.row.get? Scope.relevanceKey =
      conjunction (e.listCondition.toList ++ (pairCondition e.choice.params).toList) := by
  have hnone : (Row.ofList [("value", e.choice.value), ("label", e.choice.label)]).get?
      Scope.relevanceKey = none :=
    Row.get?_ofList_pair (by decide) _ _ _
  rw [row, Row.get?_overlay, hnone, Option.or_none, Scope.get?_merge_relevance,
    listScope_relevance, Scope.get?_ofParams_relevance, ← pairCondition, listCondition]
  cases e.lists.reverse.findSome? (fun l => pairCondition l.params) <;>
    cases pairCondition e.choice.params <;> rfl

end ListedChoice

/-- Expanding a choices tree reads its entries off in order. -/
theorem ChoiceTree.rows_eq (tree : ChoiceTree) (lists : List ChoiceList) :
    tree.rows (listScope lists) = (tree.entries lists).map ListedChoice.row := by
  induction tree generalizing lists with
  | nil => rfl
  | leaf c rest ih => rw [rows, entries, List.map_cons, ih]; rfl
  | block l body rest ihb ihr =>
    rw [rows, entries, List.map_append, ← ihb, ← ihr, listScope_concat]

/-- The choice rows of a form are those of its choices trees, whatever scope is in force. -/
theorem FormTree.choices_expand (now : Moment) (scope : Scope) (tree : FormTree) :
    (tree.expand now scope).choices =
      tree.choiceTrees.flatMap fun c => (c.entries []).map ListedChoice.row := by
  induction tree generalizing scope with
  | nil => rfl
  | leaf item rest ih =>
    cases item with
    | question q | settings f => exact ih scope
    | required value => exact ih _
    | choices c =>
      rw [choiceTrees, List.flatMap_cons, ← c.rows_eq [], ← ih scope]
      rfl
  | block part body rest ihb ihr =>
    rw [choiceTrees, List.flatMap_append]
    cases part with
    | conditional condition =>
      rw [← ihr scope,
        ← ihb (scope.merge (Row.ofList [(Scope.relevanceKey, condition.expression)]))]
      rfl
    | group g =>
      rw [← ihr scope, ← ihb (g.bodyScope scope)]
      simp [expand, Form.append]
    | included =>
      rw [← ihr scope, ← ihb scope]
      rfl

namespace Sources

variable {s : Sources}

theorem Calls.append {a b x y : List Command} (ha : s.Calls a x) (hb : s.Calls b y) :
    s.Calls (a ++ b) (x ++ y) := by
  induction ha with
  | nil => exact hb
  | choices hname _ ih => exact .choices hname ih
  | included hname hsrc hfile hbody _ _ ih =>
    rw [List.append_assoc]
    exact .included hname hsrc hfile hbody ih
  | other hchoices hinclude _ ih => exact .other hchoices hinclude ih

theorem Calls.unique {cs a b : List Command} (ha : s.Calls cs a) (hb : s.Calls cs b) : a = b := by
  induction ha generalizing b with
  | nil => cases hb; rfl
  | choices hname _ ih =>
    cases hb with
    | choices _ htail => rw [ih htail]
    | included hother => simp [hname] at hother
    | other hother => exact absurd hname hother
  | included hname hsrc hfile _ _ ihb iht =>
    cases hb with
    | choices hother => simp [hname] at hother
    | included _ hsrc' hfile' hbody htail =>
      obtain rfl := hsrc.unique hsrc'
      obtain rfl := Except.ok.inj (hfile.symm.trans hfile')
      rw [ihb hbody, iht htail]
    | other _ hother => exact absurd hname hother
  | other hchoices hinclude _ ih =>
    cases hb with
    | choices hname => exact absurd hname hchoices
    | included hname => exact absurd hname hinclude
    | other _ _ htail => exact ih htail

/-- The tree that a choices command stands for. -/
def Offers (s : Sources) (c : Command) (tree : ChoiceTree) : Prop :=
  ∃ bindings, c.bindings c.others = .ok bindings ∧ s.Lists c.target bindings tree

end Sources

/-- The choices trees of a resolved survey are those of its choices commands, in order. -/
theorem Survey.Resolves.calls {s : Sources} {survey : Survey} {tree : FormTree}
    (h : survey.Resolves s tree) :
    ∃ calls, s.Calls survey.commands calls ∧ List.Forall₂ s.Offers calls tree.choiceTrees := by
  induction h with
  | nil => exact ⟨[], .nil, .nil⟩
  | comment _ ih => exact ih
  | question _ ih => exact ih
  | form hname _ _ ih | required hname _ _ ih =>
    obtain ⟨calls, hcalls, htrees⟩ := ih
    exact ⟨calls, .other (by simp [hname]) (by simp [hname]) hcalls, htrees⟩
  | @choices c src file entries rest tree hname hsrc hfile hentries _ ih =>
    obtain ⟨calls, hcalls, htrees⟩ := ih
    obtain ⟨bindings, text, hbindings, htext, hsrc⟩ := hsrc
    exact ⟨c :: calls, .choices hname hcalls,
      .cons ⟨bindings, hbindings, text, src, file, htext, hsrc, hfile, hentries⟩ htrees⟩
  | included hname hsrc hfile _ _ ihb iht =>
    obtain ⟨inner, hinner, hbody⟩ := ihb
    obtain ⟨calls, hcalls, htrees⟩ := iht
    exact ⟨inner ++ calls, .included hname hsrc hfile hinner hcalls, List.rel_append hbody htrees⟩
  | block _ _ ihb iht =>
    obtain ⟨inner, hinner, hbody⟩ := ihb
    obtain ⟨calls, hcalls, htrees⟩ := iht
    rw [Survey.commands_block]
    exact ⟨inner ++ calls, hinner.append hcalls, List.rel_append hbody htrees⟩

theorem Sources.Names.mono {s : Sources} {cs ds : List Command} {path : String}
    (h : s.Names cs path) (hsub : cs ⊆ ds) : s.Names ds path := by
  cases h with
  | here hc => exact .here (hsub hc)
  | deeper hc hsrc hfile h => exact .deeper (hsub hc) hsrc hfile h

/-- A choices source stands for the same tree wherever the files that it names are the same. -/
theorem Choices.Resolves.of_agree {s s' : Sources} {choices : Choices} {tree : ChoiceTree}
    (h : choices.Resolves s tree)
    (hagree : ∀ path, s.Names choices.commands path → s'.text path = s.text path) :
    choices.Resolves s' tree := by
  induction h with
  | nil => exact .nil
  | comment _ ih => exact .comment (ih hagree)
  | choice _ ih => exact .choice (ih hagree)
  | list _ _ ihb iht =>
    rw [Choices.commands_block] at hagree
    exact .list (ihb fun path h => hagree path (h.mono (List.subset_append_left _ _)))
      (iht fun path h => hagree path (h.mono (List.subset_append_right _ _)))
  | @included c src file rest inner tree hname hsrc hfile _ _ ihb iht =>
    have hc : c ∈ Choices.commands (.leaf (.command c) rest) := List.mem_cons_self
    obtain ⟨bindings, text, hbindings, htext, hsubst⟩ := hsrc
    have hsrc' : s'.Supplies c src :=
      ⟨bindings, text, hbindings, (hagree _ (.here hc)).trans htext, hsubst⟩
    refine .included hname hsrc' hfile (ihb fun path h => hagree path ?_)
      (iht fun path h => hagree path (h.mono (List.subset_cons_self _ _)))
    exact .deeper hc ⟨bindings, text, hbindings, htext, hsubst⟩ hfile h

/-- The tree of a choices file depends on its path, the names bound in it and the files it is made
from, and on nothing else. -/
theorem Sources.Lists.determined {s s' : Sources} {path : String} {bindings : Row}
    {tree : ChoiceTree} (h : s.Lists path bindings tree)
    (hagree : ∀ file, s.Reads path bindings file → s'.text file = s.text file)
    (other : ChoiceTree) : s'.Lists path bindings other ↔ other = tree := by
  obtain ⟨text, src, file, htext, hsrc, hfile, htree⟩ := h
  have htext' : s'.text path = .ok text := (hagree path (.inl rfl)).trans htext
  have htree' : file.Resolves s' tree := htree.of_agree fun path' h =>
    hagree path' (.inr ⟨text, src, file, htext, hsrc, hfile, h⟩)
  constructor
  · rintro ⟨text', src', file', htext'', hsrc', hfile', hother⟩
    obtain rfl := Except.ok.inj (htext'.symm.trans htext'')
    obtain rfl := Except.ok.inj (hsrc.symm.trans hsrc')
    obtain rfl := Except.ok.inj (hfile.symm.trans hfile')
    exact hother.unique htree'
  · rintro rfl
    exact ⟨text, src, file, htext', hsrc, hfile, htree'⟩

/-- The choice rows of a form are the entries of its choices commands, in the order of the
survey with every included file in its place and each once. An entry has its own pairs, else
those of the innermost list that sets the key, else its value and label; its condition is joined
to that of the innermost list that has one. What a command gives depends on the path of its file,
the names it binds and the files read for it, and on nothing else. -/
theorem Form.choice_rows_ignore_survey {s : Sources} {now : Moment} {name src : String}
    {form : Form} (h : Form.CompiledFrom s now name src form) :
    (∃ survey calls, Survey.ofSource name src = .ok survey ∧ s.Calls survey.commands calls) ∧
    (∀ survey calls, Survey.ofSource name src = .ok survey → s.Calls survey.commands calls →
      ∃ trees, List.Forall₂ s.Offers calls trees ∧
        form.choices = trees.flatMap fun c => (c.entries []).map ListedChoice.row) ∧
    (∀ e : ListedChoice,
      (∀ key, key ≠ Scope.relevanceKey → e.row.get? key =
        ((ownValue key e.choice.params).or (e.inherited key)).or (e.intrinsic key)) ∧
      e.row.get? Scope.relevanceKey =
        conjunction (e.listCondition.toList ++ (pairCondition e.choice.params).toList)) ∧
    ∀ (s' : Sources) (path : String) (bindings : Row) (tree : ChoiceTree),
      s.Lists path bindings tree →
      (∀ file, s.Reads path bindings file → s'.text file = s.text file) →
        ∀ other, s'.Lists path bindings other ↔ other = tree := by
  obtain ⟨tree, ⟨survey, hsurvey, hresolves⟩, rfl⟩ :=
    exists_resolvedText_of_ofText h.result_ofText
  obtain ⟨calls, hcalls, htrees⟩ := hresolves.calls
  refine ⟨⟨survey, calls, hsurvey, hcalls⟩, fun survey' calls' hsurvey' hcalls' => ?_,
    fun e => ⟨fun key hkey => e.row_get? hkey, e.row_relevance⟩,
    fun s' path bindings tree htree hagree => htree.determined hagree⟩
  obtain rfl := Except.ok.inj (hsurvey.symm.trans hsurvey')
  obtain rfl := hcalls.unique hcalls'
  exact ⟨tree.choiceTrees, htrees, tree.choices_expand now ∅⟩

theorem nestedForm_choice_rows :
    ∃ survey calls trees, Survey.ofSource "/form" nestedSource = .ok survey ∧
      nestedFiles.sources.Calls survey.commands calls ∧
      List.Forall₂ nestedFiles.sources.Offers calls trees ∧
      nestedForm.choices = trees.flatMap fun c => (c.entries []).map ListedChoice.row := by
  obtain ⟨⟨survey, calls, hsurvey, hcalls⟩, hrows, -⟩ :=
    Form.choice_rows_ignore_survey (.text nestedForm_compiles)
  obtain ⟨trees, htrees, hchoices⟩ := hrows survey calls hsurvey hcalls
  exact ⟨survey, calls, trees, hsurvey, hcalls, htrees, hchoices⟩

end SurveyForms
