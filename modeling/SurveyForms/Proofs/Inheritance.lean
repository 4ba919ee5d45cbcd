import Mathlib.Data.List.Induction
import SurveyForms.Proofs.Occurrences
import SurveyForms.Proofs.Scope

/-! Where the cell of a row comes from: the statement's own pairs, then the nearest place around it
that sets the key, then the statement itself. Relevance adds up instead and is left out here. -/
namespace SurveyForms

def Param.renamed (p : Param) : Param :=
  if p.key = "if" then { p with key := Scope.relevanceKey } else p

/-- What the pairs of a statement set under a key; of several the last counts. -/
def ownValue (key : String) (params : List Param) : Option String :=
  lastValue key (params.map Param.renamed)

/-- What a step sets under a key for all that lies behind it. A group keeps its appearance to
itself, and a condition or the boundary of a file sets no key but relevance. -/
def FormStep.sets (key : String) : FormStep → Option String
  | .required value => if key = "required" then some value else none
  | .within (.group g) => if key = "appearance" then none else ownValue key g.params
  | .within (.conditional _) | .within .included => none

/-- The value in force at the end of a way, found by walking outward: in each block back past the
`required` commands before the place, and then out of the part whose body the block is. -/
def inherited (key : String) (way : List FormStep) : Option String :=
  way.reverse.findSome? (FormStep.sets key)

namespace FormEntry

/-- The pairs that a row is written with. -/
def params : FormEntry → List Param
  | .question q => q.params
  | .opening g => g.params
  | .closing _ => []

/-- What a row has under a key if no pair sets it. -/
def intrinsic (key : String) : FormEntry → Option String
  | .question q =>
    let type := String.intercalate " " q.type
    if key = "name" then some q.name
    else if key = "type" then some type
    else if key = (if type = "calculate" then "calculation" else "label") then q.label
    else none
  | .opening g =>
    if key = "name" then some g.name
    else if key = "type" then some ("begin " ++ g.kind.word)
    else if key = "label" then g.label
    else none
  | .closing g =>
    if key = "name" then some g.name
    else if key = "type" then some ("end " ++ g.kind.word)
    else none

/-- The statement of a row is the first of a block. -/
def Heads : FormEntry → FormTree → Prop
  | .question q, tree => ∃ rest, tree = .leaf (.question q) rest
  | .opening g, tree | .closing g, tree => ∃ body rest, tree = .block (.group g) body rest

end FormEntry

/-- A form tree with one place left open. The statements behind the place in its own block are
not part of it. -/
inductive FormContext where
  | hole
  | past (item : FormItem) (inner : FormContext)
  | behind (part : FormSection) (body : FormTree) (inner : FormContext)
  | inside (part : FormSection) (inner : FormContext) (rest : FormTree)

namespace FormContext

def plug (tree : FormTree) : FormContext → FormTree
  | .hole => tree
  | .past item inner => .leaf item (inner.plug tree)
  | .behind part body inner => .block part body (inner.plug tree)
  | .inside part inner rest => .block part (inner.plug tree) rest

def way : FormContext → List FormStep
  | .hole => []
  | .past (.required value) inner => .required value :: inner.way
  | .past _ inner => inner.way
  | .behind _ _ inner => inner.way
  | .inside part inner _ => .within part :: inner.way

end FormContext

def Occurrence.StandsIn (o : Occurrence) (before : List FormStep) (tree : FormTree) : Prop :=
  ∃ (c : FormContext) (found : FormTree), tree = c.plug found ∧ o.entry.Heads found ∧
    o.way = before ++ c.way

theorem Occurrence.standsIn_of_mem {tree : FormTree} {before : List FormStep} {o : Occurrence}
    (h : o ∈ tree.occurrences before) : o.StandsIn before tree := by
  induction tree generalizing before with
  | nil => simp [FormTree.occurrences] at h
  | leaf item rest ih =>
    have hpast (start : List FormStep) (hrest : o ∈ FormTree.occurrences start rest)
        (hstart : ∀ c, start ++ FormContext.way c = before ++ (FormContext.past item c).way) :
        o.StandsIn before (.leaf item rest) := by
      obtain ⟨c, found, rfl, hheads, hway⟩ := ih hrest
      exact ⟨.past item c, found, rfl, hheads, hway.trans (hstart c)⟩
    cases item with
    | question q =>
      rcases List.mem_cons.mp h with rfl | h
      · exact ⟨.hole, _, rfl, ⟨rest, rfl⟩, (List.append_nil before).symm⟩
      · exact hpast before h fun _ => rfl
    | required value =>
      exact hpast (before ++ [.required value]) h fun c => List.append_assoc _ _ _
    | settings f | choices f => exact hpast before h fun _ => rfl
  | block part body rest ihb ihr =>
    have hinside (hbody : o ∈ FormTree.occurrences (before ++ [.within part]) body) :
        o.StandsIn before (.block part body rest) := by
      obtain ⟨c, found, rfl, hheads, hway⟩ := ihb hbody
      exact ⟨.inside part c rest, found, rfl, hheads, hway.trans (List.append_assoc _ _ _)⟩
    have hbehind (hrest : o ∈ FormTree.occurrences before rest) :
        o.StandsIn before (.block part body rest) := by
      obtain ⟨c, found, rfl, hheads, hway⟩ := ihr hrest
      exact ⟨.behind part body c, found, rfl, hheads, hway⟩
    cases part with
    | conditional condition | included => exact (List.mem_append.mp h).elim hinside hbehind
    | group g =>
      simp only [FormTree.occurrences, List.cons_append, List.mem_cons, List.mem_append] at h
      rcases h with rfl | h | rfl | h
      · exact ⟨.hole, _, rfl, ⟨body, rest, rfl⟩, (List.append_nil before).symm⟩
      · exact hinside h
      · exact ⟨.hole, _, rfl, ⟨body, rest, rfl⟩, (List.append_nil before).symm⟩
      · exact hbehind h

namespace FormContext

/-- What stands in the open place has its rows together, and the others are the same whatever it
is. -/
theorem occurrences_plug (c : FormContext) (way : List FormStep) :
    ∃ before behind, ∀ tree, (c.plug tree).occurrences way =
      before ++ tree.occurrences (way ++ c.way) ++ behind := by
  -- On the context; each constructor adds the entries of one statement in front, of the rest of a
  -- block behind, or of a group around.
  induction c generalizing way with
  | hole => exact ⟨[], [], fun tree => by simp [plug, FormContext.way]⟩
  | past item inner ih =>
    cases item with
    | question q =>
      obtain ⟨before, behind, h⟩ := ih way
      exact ⟨⟨way, .question q⟩ :: before, behind, fun tree => by
        simp [plug, FormTree.occurrences, h, FormContext.way]⟩
    | required value =>
      obtain ⟨before, behind, h⟩ := ih (way ++ [.required value])
      exact ⟨before, behind, fun tree => by
        simp [plug, FormTree.occurrences, h, FormContext.way]⟩
    | settings f | choices f =>
      obtain ⟨before, behind, h⟩ := ih way
      exact ⟨before, behind, fun tree => by
        simp [plug, FormTree.occurrences, h, FormContext.way]⟩
  | behind part body inner ih =>
    obtain ⟨before, behind, h⟩ := ih way
    have hblock (tree : FormTree) : (FormTree.occurrences way (.block part body tree)) =
        FormTree.occurrences way (.block part body .nil) ++ tree.occurrences way := by
      cases part <;> simp [FormTree.occurrences]
    refine ⟨FormTree.occurrences way (.block part body .nil) ++ before, behind, fun tree => ?_⟩
    rw [plug, hblock, h, FormContext.way]
    simp only [List.append_assoc]
  | inside part inner rest ih =>
    obtain ⟨before, behind, h⟩ := ih (way ++ [.within part])
    have hway : way ++ (FormContext.inside part inner rest).way =
        way ++ [.within part] ++ inner.way := by
      rw [FormContext.way, List.append_assoc, List.singleton_append]
    rw [hway]
    cases part with
    | conditional condition | included =>
      exact ⟨before, behind ++ rest.occurrences way, fun tree => by
        simp [plug, FormTree.occurrences, h]⟩
    | group g =>
      exact ⟨⟨way, .opening g⟩ :: before, behind ++ ⟨way, .closing g⟩ :: rest.occurrences way,
        fun tree => by simp [plug, FormTree.occurrences, h]⟩

/-- The rows outside a block are the same whatever its body is. -/
theorem survey_plug_block (c : FormContext) (part : FormSection) (rest : FormTree)
    (now : Moment) :
    ∃ before behind, ∀ body, ((c.plug (.block part body rest)).expand now ∅).survey =
      before ++ (FormTree.expand now (scopeAt (c.way ++ [.within part])) body).survey ++
        behind := by
  obtain ⟨before, behind, houter⟩ := c.occurrences_plug []
  obtain ⟨opening, closing, hinner⟩ := (inside part hole rest).occurrences_plug c.way
  refine ⟨(before ++ opening).map Occurrence.row, (closing ++ behind).map Occurrence.row,
    fun body => ?_⟩
  have hbody : FormTree.occurrences c.way (.block part body rest) =
      opening ++ FormTree.occurrences (c.way ++ [.within part]) body ++ closing := hinner body
  calc ((c.plug (.block part body rest)).expand now ∅).survey
      = ((c.plug (.block part body rest)).occurrences []).map Occurrence.row :=
        FormTree.survey_expand now _ []
    _ = _ := by
        rw [houter, List.nil_append, hbody, FormTree.survey_expand]
        simp only [List.map_append, List.append_assoc]

end FormContext

namespace Scope

private theorem get?_renameIf_if (r : Row) : (renameIf r).get? "if" = none := by
  unfold renameIf
  split
  · rw [Row.get?_erase, if_pos rfl]
  · next h => exact h

private theorem key_renamed_ne_if (p : Param) : p.renamed.key ≠ "if" := by
  unfold Param.renamed
  split
  · exact (by decide : Scope.relevanceKey ≠ "if")
  · next h => exact h

private theorem renamed_eq_iff {key : String} (hr : key ≠ relevanceKey) (hi : key ≠ "if")
    (p : Param) : (p.renamed.key = key ↔ p.key = key) ∧ p.renamed.value = p.value := by
  unfold Param.renamed
  split
  · next h => exact ⟨⟨fun e => absurd e.symm hr, fun e => absurd (e.symm.trans h) hi⟩, rfl⟩
  · exact ⟨.rfl, rfl⟩

/-- The scope of a statement's pairs has under every key but relevance what the pairs set. -/
theorem get?_ofParams {key : String} (hkey : key ≠ relevanceKey) (params : List Param) :
    (ofParams params).get? key = ownValue key params := by
  rw [ownValue, lastValue, ← List.map_reverse, List.find?_map, Option.map_map]
  by_cases hif : key = "if"
  · have hnone : params.reverse.find? ((fun p => p.key = key) ∘ Param.renamed) = none := by
      rw [List.find?_eq_none]
      intro p _
      simpa [hif] using key_renamed_ne_if p
    rw [hnone, hif]
    exact get?_renameIf_if _
  · have hsame : (fun p => decide (p.key = key)) ∘ Param.renamed = fun p => decide (p.key = key) :=
      funext fun p => decide_eq_decide.mpr (renamed_eq_iff hkey hif p).1
    rw [get?_ofParams_of_ne hkey hif, lastValue, hsame]
    congr 1
    exact funext fun p => (renamed_eq_iff hkey hif p).2.symm

end Scope

theorem Row.get?_ofList_pair {a b : String} (h : a ≠ b) (v w key : String) :
    (Row.ofList [(a, v), (b, w)]).get? key =
      if key = a then some v else if key = b then some w else none := by
  have hpair : Row.ofList [(a, v), (b, w)] = ((∅ : Row).insert a v).insert b w := rfl
  rw [hpair, Row.get?_insert, Row.get?_insert, Row.get?_empty]
  grind

theorem Group.ownScope_of_ne {key : String} (hkey : key ≠ Scope.relevanceKey) (g : Group) :
    g.ownScope.get? key = ownValue key g.params := by
  unfold ownScope
  cases g.condition with
  | none => exact Scope.get?_ofParams hkey g.params
  | some condition => rw [Row.get?_insert, if_neg hkey, Scope.get?_ofParams hkey]

/-- The scope behind a step has what the step sets, and otherwise what was there before; only
appearance is lost on the way into a group. -/
theorem FormStep.scope_get? {key : String} (hkey : key ≠ Scope.relevanceKey) (outer : Scope)
    (hplain : outer.get? "appearance" = none) (step : FormStep) :
    (step.scope outer).get? key = (step.sets key).or (outer.get? key) := by
  cases step with
  | required value =>
    rw [scope, Row.get?_insert, sets]
    split <;> rfl
  | within part =>
    cases part with
    | conditional condition =>
      have hnone : (Row.ofList [(Scope.relevanceKey, condition.expression)]).get? key = none := by
        simp [Row.get?_ofList, hkey.symm]
      rw [scope, Scope.get?_merge_of_ne hkey, hnone, sets]
    | included => rfl
    | group g =>
      rw [scope, Group.bodyScope, Row.get?_eraseAll, Scope.get?_merge_of_ne hkey,
        g.ownScope_of_ne hkey, sets]
      by_cases happearance : key = "appearance"
      · rw [if_pos (by simp [Scope.markerKeys, happearance]), if_pos happearance, happearance,
          hplain]
        rfl
      · rw [if_neg (by simp [Scope.markerKeys, happearance, hkey]), if_neg happearance]

/-- Appearance is never passed on. -/
theorem inherited_appearance (way : List FormStep) : inherited "appearance" way = none := by
  rw [inherited, List.findSome?_eq_none_iff]
  intro step _
  cases step with
  | required value => rfl
  | within part => cases part <;> rfl

/-- The scope at the end of a way has under each key but relevance the value in force there. -/
theorem scopeAt_get? {key : String} (hkey : key ≠ Scope.relevanceKey) (way : List FormStep) :
    (scopeAt way).get? key = inherited key way := by
  induction way using List.reverseRecOn generalizing key with
  | nil => rfl
  | append_singleton way step ih =>
    have hplain : (scopeAt way).get? "appearance" = none :=
      (ih (by decide)).trans (inherited_appearance way)
    rw [scopeAt_concat, step.scope_get? hkey _ hplain, ih hkey, inherited, inherited,
      List.reverse_append, List.reverse_singleton, List.findSome?_append, List.findSome?_singleton]

/-- A row laid over by a scope has the own value, else the one in force, else what it started
with. -/
private theorem overlay_get? {key : String} (hkey : key ≠ Scope.relevanceKey) (base : Row)
    (way : List FormStep) {own : Scope} {params : List Param}
    (hown : own.get? key = ownValue key params) :
    (base.overlay ((scopeAt way).merge own)).get? key =
      ((ownValue key params).or (inherited key way)).or (base.get? key) := by
  rw [Row.get?_overlay, Scope.get?_merge_of_ne hkey, hown, scopeAt_get? hkey]

/-- The cells of a row but its relevance: own pairs first, then what is in force, then what the
entry has of itself. -/
theorem Occurrence.row_get? (o : Occurrence) (h : ∀ g, o.entry ≠ .closing g) {key : String}
    (hkey : key ≠ Scope.relevanceKey) :
    o.row.get? key =
      ((ownValue key o.entry.params).or (inherited key o.way)).or (o.entry.intrinsic key) := by
  obtain ⟨way, entry⟩ := o
  cases entry with
  | question q =>
    refine (overlay_get? hkey _ way (Scope.get?_ofParams hkey q.params)).trans (congrArg _ ?_)
    cases hlabel : q.label with
    | none => grind [FormEntry.intrinsic, Row.get?_ofList_pair]
    | some label => grind [FormEntry.intrinsic, Row.get?_ofList_pair, Row.get?_insert]
  | opening g =>
    refine (overlay_get? hkey _ way (g.ownScope_of_ne hkey)).trans (congrArg _ ?_)
    cases hlabel : g.label with
    | none => grind [FormEntry.intrinsic, Row.get?_ofList_pair]
    | some label => grind [FormEntry.intrinsic, Row.get?_ofList_pair, Row.get?_insert]
  | closing g => exact absurd rfl (h g)

/-- Parameters follow lexical scope. A row of a question or of the start of a group has under every
key but relevance the last own pair of its statement, else the value of the nearest place on the
way out of the tree that sets the key, else what the statement itself gives. Appearance is never
passed on, and whatever stands in a block, the rows outside it are the same. -/
theorem Form.cells_follow_lexical_scope {s : Sources} {now : Moment} {name src : String}
    {form : Form} (h : Form.CompiledFrom s now name src form) :
    (∃ tree, s.ResolvedText name src tree) ∧ ∀ tree, s.ResolvedText name src tree →
      form.survey = (tree.occurrences []).map Occurrence.row ∧
      (∀ o ∈ tree.occurrences [], o.StandsIn [] tree ∧ inherited "appearance" o.way = none ∧
        ((∀ g, o.entry ≠ .closing g) → ∀ key, key ≠ Scope.relevanceKey →
          o.row.get? key =
            ((ownValue key o.entry.params).or (inherited key o.way)).or
              (o.entry.intrinsic key))) ∧
      ∀ context part body rest, tree = FormContext.plug (.block part body rest) context →
        ∃ before behind, ∀ other : FormTree,
          ((context.plug (.block part other rest)).expand now ∅).survey =
            before ++ (other.expand now (scopeAt (context.way ++ [.within part]))).survey ++
              behind := by
  obtain ⟨tree, htree, rfl⟩ := exists_resolvedText_of_ofText h.result_ofText
  refine ⟨⟨tree, htree⟩, fun tree' htree' => ?_⟩
  obtain rfl := htree.unique htree'
  refine ⟨tree.survey_expand now [], fun o ho => ?_, fun context part body rest _ => ?_⟩
  · exact ⟨Occurrence.standsIn_of_mem ho, inherited_appearance o.way,
      fun hentry key hkey => o.row_get? hentry hkey⟩
  · exact context.survey_plug_block part rest now

/-- A form with settings at two depths, a file inside a condition, and choices from two files. -/
def nestedSource : String :=
  "@form a auto A\ngroup g hint h:\n  @required yes\n  if . > 1:\n    @include p\n" ++
    "  @form b auto B\n@choices c"

def nestedFiles : FileSet := FileSet.ofList
  [("/p", "@form z 1 Z\nq text: hint own"), ("/c", "list l if a:\n  1 2 if c\n  @include d"),
    ("/d", "list m if b:\n  3 4 if c")]

def nestedForm : Form where
  survey :=
    [Row.ofList [("type", "begin group"), ("name", "g"), ("hint", "h")],
      Row.ofList [("type", "text"), ("name", "q"), ("hint", "own"), ("required", "yes"),
        ("relevance", ". > 1")],
      Row.ofList [("type", "end group"), ("name", "g")]]
  choices :=
    [Row.ofList [("list_name", "l"), ("value", "1"), ("label", "2"), ("relevance", "(a) and (c)")],
      Row.ofList [("list_name", "m"), ("value", "3"), ("label", "4"),
        ("relevance", "(b) and (c)")]]
  settings := some (Row.ofList [("form_title", "B"), ("form_id", "b"), ("version", "7001010000")])

theorem nestedForm_compiles :
    (Form.ofText nestedFiles.sources ⟨0, 0⟩ "/form" nestedSource).result = .ok nestedForm :=
  eq_ok_of_toOption (by decide +kernel)

theorem nestedForm_follows_scope :
    ∃ tree, nestedFiles.sources.ResolvedText "/form" nestedSource tree ∧
      nestedForm.survey = (tree.occurrences []).map Occurrence.row ∧
      ∀ o ∈ tree.occurrences [], ∀ q, o.entry = .question q →
        o.row.get? "hint" =
          ((ownValue "hint" q.params).or (inherited "hint" o.way)).or (o.entry.intrinsic "hint") := by
  obtain ⟨⟨tree, htree⟩, hall⟩ := Form.cells_follow_lexical_scope (.text nestedForm_compiles)
  obtain ⟨hrows, hcells, -⟩ := hall tree htree
  refine ⟨tree, htree, hrows, fun o ho q hq => ?_⟩
  have hhint := (hcells o ho).2.2 (by simp [hq]) "hint" (by decide)
  rwa [hq] at hhint ⊢

end SurveyForms
