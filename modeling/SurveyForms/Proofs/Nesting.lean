import Mathlib.Data.List.Induction
import SurveyForms.Proofs.Occurrences
import SurveyForms.Proofs.Scope

/-! Start and end rows of groups. They are told by their `type` and `name` cells alone, and pairs
of the source may write over these cells. Main statement: exactly when the rows of a form nest, in
terms of the pairs that are in force at each entry. -/
namespace SurveyForms

/-- What a row says about nesting. -/
inductive Marker where
  | opening (kind name : String)
  | closing (kind name : String)
  deriving DecidableEq, Repr

namespace Marker

def behind? (word text : String) : Option String :=
  if word.toList.isPrefixOf text.toList then
    some (String.ofList (text.toList.drop word.toList.length))
  else none

/-- The marker of a type and a name: the type says `begin` or `end` and a kind. -/
def ofCells? (type name : String) : Option Marker :=
  match behind? "begin " type, behind? "end " type with
  | some kind, _ => some (.opening kind name)
  | none, some kind => some (.closing kind name)
  | none, none => none

/-- Reads markers with a stack of those that are open. There is no result if a closing one meets
an empty stack or one of another kind or name. -/
def pairUp (stack : List (String × String)) : List Marker → Option (List (String × String))
  | [] => some stack
  | .opening kind name :: ms => pairUp ((kind, name) :: stack) ms
  | .closing kind name :: ms =>
    match stack with
    | top :: below => if top = (kind, name) then pairUp below ms else none
    | [] => none

/-- Sequences in which every opening marker has its closing one behind it. -/
inductive Balanced : List Marker → Prop
  | nil : Balanced []
  | pair {kind name : String} {inner rest : List Marker} (hinner : Balanced inner)
      (hrest : Balanced rest) :
      Balanced (.opening kind name :: inner ++ .closing kind name :: rest)

def isOpening : Marker → Bool
  | .opening _ _ => true
  | .closing _ _ => false

def isClosing : Marker → Bool
  | .opening _ _ => false
  | .closing _ _ => true

/-- What is left of a balanced sequence when its first markers are taken away: balanced parts with
the markers that close `stack` between them. -/
private inductive Closes : List (String × String) → List Marker → Prop
  | done {ms : List Marker} (h : Balanced ms) : Closes [] ms
  | close {kind name : String} {stack : List (String × String)} {inner ms : List Marker}
      (hinner : Balanced inner) (hrest : Closes stack ms) :
      Closes ((kind, name) :: stack) (inner ++ .closing kind name :: ms)

private theorem Balanced.closes_append {inner ms : List Marker} {stack : List (String × String)}
    {kind name : String} (hinner : Balanced inner) (h : Closes stack ms) :
    Closes stack (.opening kind name :: inner ++ .closing kind name :: ms) := by
  cases h with
  | done h => exact .done (.pair hinner h)
  | @close kind' name' stack inner' ms h hrest =>
    have hpair : Balanced (.opening kind name :: inner ++ .closing kind name :: inner') :=
      .pair hinner h
    simpa using @Closes.close kind' name' stack _ ms hpair hrest

private theorem closes_of_pairUp {ms : List Marker} {stack : List (String × String)}
    (h : pairUp stack ms = some []) : Closes stack ms := by
  induction ms generalizing stack with
  | nil =>
    obtain rfl : stack = [] := by simpa [pairUp] using h
    exact .done .nil
  | cons m ms ih =>
    cases m with
    | opening kind name =>
      cases @ih ((kind, name) :: stack) h with
      | close hinner hrest => exact hinner.closes_append hrest
    | closing kind name =>
      cases stack with
      | nil => simp [pairUp] at h
      | cons top below =>
        simp only [pairUp] at h
        split at h
        · next htop =>
          subst htop
          exact .close .nil (ih h)
        · simp at h

private theorem Balanced.pairUp_append {ms : List Marker} (h : Balanced ms)
    (stack : List (String × String)) (rest : List Marker) :
    pairUp stack (ms ++ rest) = pairUp stack rest := by
  induction h generalizing stack rest with
  | nil => rfl
  | pair _ _ ihi ihr =>
    simp only [List.cons_append, List.append_assoc, pairUp, ihi, if_true, ihr]

/-- A stack is enough to tell the balanced sequences. -/
theorem pairUp_iff_balanced (ms : List Marker) : pairUp [] ms = some [] ↔ Balanced ms := by
  constructor
  · intro h
    cases closes_of_pairUp h with
    | done h => exact h
  · intro h
    have := h.pairUp_append [] []
    rwa [List.append_nil] at this

/-- Markers that pair up are as often opening as closing, up to what is on the stack. -/
theorem pairUp_count {ms : List Marker} {stack left : List (String × String)}
    (h : pairUp stack ms = some left) :
    stack.length + ms.countP isOpening = left.length + ms.countP isClosing := by
  induction ms generalizing stack with
  | nil =>
    obtain rfl : stack = left := by simpa [pairUp] using h
    rfl
  | cons m ms ih =>
    cases m with
    | opening kind name =>
      have := @ih ((kind, name) :: stack) h
      rw [List.length_cons] at this
      rw [List.countP_cons_of_pos rfl, List.countP_cons_of_neg (by simp [isClosing])]
      omega
    | closing kind name =>
      cases stack with
      | nil => simp [pairUp] at h
      | cons top below =>
        simp only [pairUp] at h
        split at h
        · have := ih h
          rw [List.countP_cons_of_neg (by simp [isOpening]), List.countP_cons_of_pos rfl,
            List.length_cons]
          omega
        · simp at h

private theorem behind?_append (word text : String) : behind? word (word ++ text) = some text := by
  simp [behind?, String.toList_append]

private theorem eq_append_of_behind? {word text rest : String} (h : behind? word text = some rest) :
    text = word ++ rest := by
  unfold behind? at h
  split at h
  · next hword =>
    obtain ⟨tail, htail⟩ := List.isPrefixOf_iff_prefix.mp hword
    obtain rfl : String.ofList (text.toList.drop word.toList.length) = rest := Option.some.inj h
    apply String.toList_inj.mp
    rw [String.toList_append, String.toList_ofList, ← htail, List.drop_left]
  · simp at h

theorem ofCells?_eq_opening_iff {type name kind other : String} :
    ofCells? type name = some (.opening kind other) ↔ type = "begin " ++ kind ∧ name = other := by
  constructor
  · intro h
    unfold ofCells? at h
    split at h
    · next hbegin =>
      obtain ⟨rfl, rfl⟩ := Marker.opening.inj (Option.some.inj h)
      exact ⟨eq_append_of_behind? hbegin, rfl⟩
    · simp at h
    · simp at h
  · rintro ⟨rfl, rfl⟩
    simp [ofCells?, behind?_append]

theorem ofCells?_end (kind name : String) :
    ofCells? ("end " ++ kind) name = some (.closing kind name) := by
  have hbegin : behind? "begin " ("end " ++ kind) = none := by
    simp [behind?, String.toList_append]
  simp [ofCells?, hbegin, behind?_append]

end Marker

/-- The value that the groups on a way pass on under a key; of several the innermost counts. -/
def passedOn (key : String) (way : List FormStep) : Option String :=
  way.reverse.findSome? fun
    | .within (.group g) => lastValue key g.params
    | _ => none

namespace Occurrence

/-- The text of a cell that pairs may write over: the entry's own pair counts before one that is
passed on, and `plain` stands if there is neither. -/
def overwritten (o : Occurrence) (key : String) (params : List Param) (plain : String) : String :=
  ((lastValue key params).or (passedOn key o.way)).getD plain

def type (o : Occurrence) : String :=
  match o.entry with
  | .question q => o.overwritten "type" q.params (String.intercalate " " q.type)
  | .opening g => o.overwritten "type" g.params ("begin " ++ g.kind.word)
  | .closing g => "end " ++ g.kind.word

def name (o : Occurrence) : String :=
  match o.entry with
  | .question q => o.overwritten "name" q.params q.name
  | .opening g => o.overwritten "name" g.params g.name
  | .closing g => g.name

def marker? (o : Occurrence) : Option Marker := Marker.ofCells? o.type o.name

end Occurrence

/-- The marker that a row is read as. -/
def Row.marker? (r : Row) : Option Marker := Marker.ofCells? (r.text "type") (r.text "name")

/-- Whether the start and end rows among the rows pair up, each end row with the start row of its
kind and name that was opened last. -/
def MarkersNest (rows : List Row) : Prop := Marker.pairUp [] (rows.filterMap Row.marker?) = some []

instance (rows : List Row) : Decidable (MarkersNest rows) :=
  inferInstanceAs (Decidable (Marker.pairUp [] (rows.filterMap Row.marker?) = some []))

private theorem ownScope_plain {key : String} (hr : key ≠ Scope.relevanceKey) (hi : key ≠ "if")
    (g : Group) : g.ownScope.get? key = lastValue key g.params := by
  unfold Group.ownScope
  cases g.condition with
  | none => exact Scope.get?_ofParams_of_ne hr hi g.params
  | some condition => rw [Row.get?_insert, if_neg hr, Scope.get?_ofParams_of_ne hr hi]

/-- A key that no statement treats in a way of its own is passed on by groups and nothing else. -/
theorem scopeAt_passedOn {key : String} (hr : key ≠ Scope.relevanceKey) (hi : key ≠ "if")
    (ha : key ≠ "appearance") (hq : key ≠ "required") (way : List FormStep) :
    (scopeAt way).get? key = passedOn key way := by
  induction way using List.reverseRecOn with
  | nil => rfl
  | append_singleton way step ih =>
    rw [scopeAt_concat, passedOn, List.reverse_append, List.reverse_singleton,
      List.singleton_append]
    cases step with
    | required value => rw [FormStep.scope, Row.get?_insert, if_neg hq, ih]; rfl
    | within part =>
      cases part with
      | conditional condition =>
        rw [FormStep.scope, Scope.get?_merge_of_ne hr, Row.get?_ofList, ih]
        simp [hr.symm, passedOn]
      | included => rw [FormStep.scope, ih]; rfl
      | group g =>
        rw [FormStep.scope, Group.bodyScope, Row.get?_eraseAll,
          if_neg (by simp [Scope.markerKeys, hr, ha]), Scope.get?_merge_of_ne hr,
          ownScope_plain hr hi, ih]
        cases h : lastValue key g.params <;> simp [passedOn, h]

/-- A cell of a row laid under a scope, for a key that nothing treats in a way of its own. -/
private theorem overlay_text {key : String} (hr : key ≠ Scope.relevanceKey) (hi : key ≠ "if")
    (ha : key ≠ "appearance") (hq : key ≠ "required") {base : Row} {way : List FormStep}
    {own : Scope} {params : List Param} {plain : String}
    (hbase : base.get? key = some plain) (hown : own.get? key = lastValue key params) :
    (base.overlay ((scopeAt way).merge own)).text key =
      ((lastValue key params).or (passedOn key way)).getD plain := by
  rw [Row.text, Row.get?_overlay, Scope.get?_merge_of_ne hr, scopeAt_passedOn hr hi ha hq, hown,
    hbase]
  cases (lastValue key params).or (passedOn key way) <;> rfl

namespace Occurrence

/-- Type and name cells of a row are what the source gives its entry. -/
theorem row_cells (o : Occurrence) : o.row.text "type" = o.type ∧ o.row.text "name" = o.name := by
  obtain ⟨way, entry⟩ := o
  cases entry with
  | question q =>
    have hown {key : String} := @Scope.get?_ofParams_of_ne key
    refine ⟨overlay_text (by decide) (by decide) (by decide) (by decide) ?_
      (hown (by decide) (by decide) q.params), overlay_text (by decide) (by decide) (by decide)
      (by decide) ?_ (hown (by decide) (by decide) q.params)⟩
    all_goals
      cases q.label with
      | none => simp [Row.get?_ofList]
      | some label =>
        simp only [Row.get?_insert, Row.get?_ofList]
        split <;> simp
  | opening g =>
    refine ⟨overlay_text (by decide) (by decide) (by decide) (by decide) ?_
      (ownScope_plain (by decide) (by decide) g), overlay_text (by decide) (by decide) (by decide)
      (by decide) ?_ (ownScope_plain (by decide) (by decide) g)⟩
    all_goals
      cases g.label with
      | none => simp [Row.get?_ofList]
      | some label => simp [Row.get?_insert, Row.get?_ofList]
  | closing g => simp [row, Group.closingRow, type, name, Row.text, Row.get?_ofList]

theorem row_marker? (o : Occurrence) : o.row.marker? = o.marker? := by
  rw [Row.marker?, o.row_cells.1, o.row_cells.2, marker?]

/-- The start of a group keeps its type and its name. -/
def Kept (o : Occurrence) : Prop :=
  ∀ g, o.entry = .opening g → o.type = "begin " ++ g.kind.word ∧ o.name = g.name

/-- A question is not typed like the start or the end of a group. -/
def Unmarked (o : Occurrence) : Prop := ∀ q, o.entry = .question q → o.marker? = none

end Occurrence

namespace FormTree

/-- The markers of a tree in order, as the source gives them. -/
def markers (way : List FormStep) (tree : FormTree) : List Marker :=
  (tree.occurrences way).filterMap Occurrence.marker?

private theorem markers_group (way : List FormStep) (g : Group) (body rest : FormTree) :
    markers way (.block (.group g) body rest) =
      (Occurrence.mk way (.opening g)).marker?.toList ++
        markers (way ++ [.within (.group g)]) body ++
        .closing g.kind.word g.name :: markers way rest := by
  have hclosing : (Occurrence.mk way (.closing g)).marker? =
      some (.closing g.kind.word g.name) := Marker.ofCells?_end _ _
  rw [markers, occurrences, List.cons_append, List.filterMap_cons, List.filterMap_append,
    List.filterMap_cons_some hclosing]
  cases (Occurrence.mk way (.opening g)).marker? <;> rfl

private theorem markers_question (way : List FormStep) (q : Question) (rest : FormTree)
    (h : (Occurrence.mk way (.question q)).marker? = none) :
    markers way (.leaf (.question q) rest) = markers way rest := by
  rw [markers, occurrences, List.filterMap_cons_none h, markers]

/-- If no question is typed as a marker, a tree has no more opening markers than closing ones, and
as many only if every group opens with one. -/
private theorem opening_markers {tree : FormTree} {way : List FormStep}
    (hq : ∀ o ∈ tree.occurrences way, o.Unmarked) :
    (markers way tree).countP Marker.isOpening ≤ (markers way tree).countP Marker.isClosing ∧
    ((markers way tree).countP Marker.isOpening = (markers way tree).countP Marker.isClosing →
      ∀ o ∈ tree.occurrences way, ∀ g, o.entry = .opening g →
        ∃ kind name, o.marker? = some (.opening kind name)) := by
  induction tree generalizing way with
  | nil => simp [markers, occurrences]
  | leaf item rest ih =>
    cases item with
    | question q =>
      rw [markers_question way q rest (hq _ (List.mem_cons_self ..) q rfl)]
      obtain ⟨hle, hall⟩ := ih fun o ho => hq o (List.mem_cons_of_mem _ ho)
      refine ⟨hle, fun heq o ho g hg => ?_⟩
      rcases List.mem_cons.mp ho with rfl | ho
      · simp at hg
      · exact hall heq o ho g hg
    | required value => exact ih hq
    | settings f => exact ih hq
    | choices c => exact ih hq
  | block part body rest ihb ihr =>
    cases part with
    | conditional condition | included =>
      obtain ⟨hb, hallb⟩ := ihb fun o ho => hq o (List.mem_append_left _ ho)
      obtain ⟨hr, hallr⟩ := ihr fun o ho => hq o (List.mem_append_right _ ho)
      simp only [markers, occurrences, List.filterMap_append, List.countP_append] at *
      refine ⟨by omega, fun heq o ho => ?_⟩
      rcases List.mem_append.mp ho with ho | ho
      · exact hallb (by omega) o ho
      · exact hallr (by omega) o ho
    | group g =>
      simp only [occurrences, List.cons_append, List.mem_cons, List.mem_append] at hq ⊢
      obtain ⟨hb, hallb⟩ := ihb fun o ho => hq o (.inr (.inl ho))
      obtain ⟨hr, hallr⟩ := ihr fun o ho => hq o (.inr (.inr (.inr ho)))
      rw [markers_group, List.countP_append, List.countP_append, List.countP_append,
        List.countP_append, List.countP_cons_of_neg (by simp [Marker.isOpening]),
        List.countP_cons_of_pos rfl]
      -- Unless the group opens with a marker, its end row is one closing marker too many.
      rcases hm : (Occurrence.mk way (.opening g)).marker? with _ | ⟨kind, name⟩ | ⟨kind, name⟩
      · simp only [Option.toList_none, List.countP_nil]
        exact ⟨by omega, fun heq => by omega⟩
      · simp only [Option.toList_some, List.countP_singleton, Marker.isOpening, Marker.isClosing,
          if_true, Bool.false_eq_true, if_false]
        refine ⟨by omega, fun heq o ho g' hg' => ?_⟩
        rcases ho with rfl | ho | rfl | ho
        · exact ⟨kind, name, hm⟩
        · exact hallb (by omega) o ho g' hg'
        · simp at hg'
        · exact hallr (by omega) o ho g' hg'
      · simp only [Option.toList_some, List.countP_singleton, Marker.isOpening, Marker.isClosing,
          if_true, Bool.false_eq_true, if_false]
        exact ⟨by omega, fun heq => by omega⟩

/-- If every group opens with a marker, reading those of a tree comes back to the stack it started
from exactly if they are the groups' own. -/
private theorem pairUp_markers {tree : FormTree} {way : List FormStep}
    (hq : ∀ o ∈ tree.occurrences way, o.Unmarked)
    (ho : ∀ o ∈ tree.occurrences way, ∀ g, o.entry = .opening g →
      ∃ kind name, o.marker? = some (.opening kind name))
    (stack left : List (String × String)) (ms : List Marker) :
    Marker.pairUp stack (markers way tree ++ ms) = some left ↔
      (∀ o ∈ tree.occurrences way, o.Kept) ∧ Marker.pairUp stack ms = some left := by
  induction tree generalizing way stack ms with
  | nil => simp [markers, occurrences]
  | leaf item rest ih =>
    cases item with
    | question q =>
      rw [markers_question way q rest (hq _ (List.mem_cons_self ..) q rfl),
        ih (fun o h => hq o (List.mem_cons_of_mem _ h)) fun o h => ho o (List.mem_cons_of_mem _ h)]
      have hkept : (Occurrence.mk way (.question q)).Kept := by
        intro g hg
        simp at hg
      simp only [occurrences, List.forall_mem_cons, hkept, true_and]
    | required value => exact ih hq ho stack ms
    | settings f => exact ih hq ho stack ms
    | choices c => exact ih hq ho stack ms
  | block part body rest ihb ihr =>
    cases part with
    | conditional condition | included =>
      have hb := ihb (fun o h => hq o (List.mem_append_left _ h))
        fun o h => ho o (List.mem_append_left _ h)
      have hr := ihr (fun o h => hq o (List.mem_append_right _ h))
        fun o h => ho o (List.mem_append_right _ h)
      simp only [markers, occurrences, List.filterMap_append, List.append_assoc,
        List.forall_mem_append] at hb hr ⊢
      rw [hb, hr, and_assoc]
    | group g =>
      simp only [occurrences, List.cons_append, List.mem_cons, List.mem_append] at hq ho
      obtain ⟨kind, name, hm⟩ := ho ⟨way, .opening g⟩ (.inl rfl) g rfl
      have hb := ihb (fun o h => hq o (.inr (.inl h))) (fun o h => ho o (.inr (.inl h)))
        ((kind, name) :: stack)
      have hr := ihr (fun o h => hq o (.inr (.inr (.inr h))))
        (fun o h => ho o (.inr (.inr (.inr h)))) stack
      have hself : (Occurrence.mk way (.opening g)).Kept ↔
          (kind, name) = (g.kind.word, g.name) := by
        obtain ⟨htype, hname⟩ := Marker.ofCells?_eq_opening_iff.mp hm
        simp [Occurrence.Kept, htype, hname]
      have hend : (Occurrence.mk way (.closing g)).Kept := by
        intro g' hg'
        simp at hg'
      rw [markers_group, hm, Option.toList_some, List.append_assoc, List.append_assoc,
        List.singleton_append, Marker.pairUp, List.cons_append, hb, Marker.pairUp, occurrences,
        List.cons_append, List.forall_mem_cons, List.forall_mem_append, List.forall_mem_cons, hself]
      by_cases heq : (kind, name) = (g.kind.word, g.name)
      · rw [if_pos heq, hr]
        simp only [heq, hend, true_and, and_assoc]
      · rw [if_neg heq]
        simp only [heq, false_and, and_false, reduceCtorEq]

/-- Where no question is typed like a marker, the markers of a tree are balanced exactly if every
group keeps its type and its name. -/
theorem balanced_markers_iff {tree : FormTree} (hq : ∀ o ∈ tree.occurrences [], o.Unmarked) :
    Marker.Balanced (tree.markers []) ↔ ∀ o ∈ tree.occurrences [], o.Kept := by
  rw [← Marker.pairUp_iff_balanced]
  have hiff (ho : ∀ o ∈ tree.occurrences [], ∀ g, o.entry = .opening g →
      ∃ kind name, o.marker? = some (.opening kind name)) :
      Marker.pairUp [] (tree.markers []) = some [] ↔ ∀ o ∈ tree.occurrences [], o.Kept := by
    have h := pairUp_markers hq ho [] [] []
    rw [List.append_nil] at h
    exact h.trans (and_iff_left rfl)
  constructor
  · intro h
    have hcount := Marker.pairUp_count h
    rw [List.length_nil, Nat.zero_add, Nat.zero_add] at hcount
    exact (hiff ((opening_markers hq).2 hcount)).mp h
  · intro h
    refine (hiff fun o ho g hg => ⟨g.kind.word, g.name, ?_⟩).mpr h
    exact Marker.ofCells?_eq_opening_iff.mpr (h o ho g hg)

end FormTree

/-- Exactly when the start and end rows of a form nest: the markers that the source gives, with its
pairs written over types and names, have to be balanced. Where no question is typed like a marker,
that is to say that no pair in force at the start of a group changes its type or its name. -/
theorem Form.markers_nest_iff {s : Sources} {now : Moment} {path : String} {form : Form}
    (h : (Form.ofFile s now path).result = .ok form) :
    (∃ tree, s.Resolved path tree) ∧ ∀ tree, s.Resolved path tree →
      (MarkersNest form.survey ↔ Marker.Balanced (tree.markers [])) ∧
      ((∀ o ∈ tree.occurrences [], o.Unmarked) →
        (MarkersNest form.survey ↔ ∀ o ∈ tree.occurrences [], o.Kept)) := by
  obtain ⟨hexists, hall⟩ := forall_resolved_of_ofFile
    (P := fun tree form => form.survey = (tree.occurrences []).map Occurrence.row) h
    fun tree => tree.survey_expand now []
  refine ⟨hexists, fun tree htree => ?_⟩
  have hmarkers : form.survey.filterMap Row.marker? = tree.markers [] := by
    have hcells : Row.marker? ∘ Occurrence.row = Occurrence.marker? := by
      funext o
      exact o.row_marker?
    rw [hall tree htree, List.filterMap_map, hcells, FormTree.markers]
  have hnest : MarkersNest form.survey ↔ Marker.Balanced (tree.markers []) := by
    rw [MarkersNest, hmarkers, Marker.pairUp_iff_balanced]
  exact ⟨hnest, fun hq => hnest.trans (FormTree.balanced_markers_iff hq)⟩

theorem sampleForm_markers_balanced :
    MarkersNest sampleForm.survey ∧ ∃ tree, sampleFiles.sources.Resolved "/form.comb" tree ∧
      Marker.Balanced (tree.markers []) := by
  obtain ⟨⟨tree, htree⟩, hall⟩ := Form.markers_nest_iff sampleForm_compiles
  have hnest : MarkersNest sampleForm.survey := by decide
  exact ⟨hnest, tree, htree, (hall tree htree).1.mp hnest⟩

/-- A group whose own pair takes away the type of its start row. -/
def retypedFiles : FileSet := FileSet.ofList
  [("/form.comb", "group g type note:\n  q integer: type integer")]

def retypedForm : Form where
  survey :=
    [Row.ofList [("name", "g"), ("type", "note")],
      Row.ofList [("name", "q"), ("type", "integer")],
      Row.ofList [("name", "g"), ("type", "end group")]]
  choices := []
  settings := none

/-- The end row of a retyped group closes nothing. -/
theorem retypedForm_markers_not_nested :
    (Form.ofFile retypedFiles.sources ⟨0, 0⟩ "/form.comb").result = .ok retypedForm ∧
      ¬ MarkersNest retypedForm.survey :=
  ⟨eq_ok_of_toOption (by decide +kernel), by decide⟩

end SurveyForms
