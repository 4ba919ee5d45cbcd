import Mathlib.Algebra.BigOperators.Group.List.Lemmas
import Mathlib.Algebra.Ring.Nat
import Mathlib.Data.List.Chain
import Mathlib.Data.List.Dedup
import SurveyForms.Project.Commands
import SurveyForms.Proofs.Jobs
import SurveyForms.Proofs.Nesting
import SurveyForms.Proofs.Visibility

/-! The outline of a form against its source. Groups are told by the texts of their types, and any
entry can have such a type. Main result: for which forms each question and each group has its line
at its depth. -/
namespace SurveyForms

namespace Occurrence

def depth (o : Occurrence) : Nat := o.way.countP FormStep.entersGroup

def isClosing (o : Occurrence) : Bool :=
  match o.entry with
  | .closing _ => true
  | _ => false

def items (os : List Occurrence) : List Occurrence := os.filter fun o => !o.isClosing

def line (o : Occurrence) : Outline.Line :=
  ⟨o.depth, o.type, o.name,
    if o.row.text "label" = "" then o.row.text "calculation" else o.row.text "label"⟩

def typedAsStart (o : Occurrence) : Bool := Outline.starts "begin " o.type

def typedAsEnd (o : Occurrence) : Bool := Outline.starts "end " o.type

/-- An outline that is in step at an entry is in step at the next one. A group that has lost its
type is left without having been entered, which does not count at the top. -/
def KeepsStep (o next : Occurrence) : Prop :=
  match o.entry with
  | .opening _ => o.typedAsStart = true ∨ next.depth = 0
  | _ => o.typedAsStart = false

/-- Entries from a level on, which come back to the top in the end. -/
inductive Leveled : Nat → List Occurrence → Prop
  | nil : Leveled 0 []
  | question {way : List FormStep} {q : Question} {os : List Occurrence}
      (h : Leveled (mk way (.question q)).depth os) :
      Leveled (mk way (.question q)).depth (⟨way, .question q⟩ :: os)
  | opening {way : List FormStep} {g : Group} {os : List Occurrence}
      (h : Leveled ((mk way (.opening g)).depth + 1) os) :
      Leveled (mk way (.opening g)).depth (⟨way, .opening g⟩ :: os)
  | closing {d : Nat} {way : List FormStep} {g : Group} {os : List Occurrence}
      (h : Leveled d os) : Leveled (d + 1) (⟨way, .closing g⟩ :: os)

variable {d : Nat} {o : Occurrence} {os : List Occurrence}

theorem rows_of_end (h : o.typedAsEnd = true) (c : Nat) (os : List Occurrence) :
    Outline.rows c ((o :: os).map row) = Outline.rows (c - 1) (os.map row) := by
  rw [List.map_cons, Outline.rows]
  simp only [o.row_cells.1]
  exact if_pos h

theorem rows_of_not_end (h : o.typedAsEnd = false) (c : Nat) (os : List Occurrence) :
    Outline.rows c ((o :: os).map row) = { o.line with depth := c } ::
      Outline.rows (if o.typedAsStart then c + 1 else c) (os.map row) := by
  rw [List.map_cons, Outline.rows]
  simp only [o.row_cells.1, o.row_cells.2]
  exact if_neg (by rw [← typedAsEnd, h]; decide)

theorem typedAsEnd_closing (way : List FormStep) (g : Group) :
    (mk way (.closing g)).typedAsEnd = true := by
  have htype : (mk way (.closing g)).type = "end " ++ g.kind.word := rfl
  rw [typedAsEnd, htype, Outline.starts, String.toList_append]
  exact List.isPrefixOf_iff_prefix.mpr (List.prefix_append _ _)

/-- Each entry with a row that is no end has a line. -/
theorem length_rows (c : Nat) (os : List Occurrence) :
    (Outline.rows c (os.map row)).length = (os.filter fun o => !o.typedAsEnd).length := by
  induction os generalizing c with
  | nil => rfl
  | cons o os ih =>
    cases h : o.typedAsEnd with
    | true => rw [rows_of_end h, ih, List.filter_cons_of_neg (by simp [h])]
    | false => rw [rows_of_not_end h, List.length_cons, ih, List.filter_cons_of_pos (by simp [h]),
        List.length_cons]

/-- Where all have their lines, no question and no start of a group is typed as an end. -/
theorem typedAsEnd_of_lines {c : Nat} (h : Outline.rows c (os.map row) = (items os).map line) :
    ∀ o ∈ items os, o.typedAsEnd = false := by
  have hsub : (os.filter fun o => !o.typedAsEnd) = (items os).filter fun o => !o.typedAsEnd := by
    rw [items, List.filter_filter]
    refine List.filter_congr fun o _ => ?_
    obtain ⟨way, entry⟩ := o
    cases entry with
    | question q | opening g => simp [isClosing]
    | closing g => simp [typedAsEnd_closing, isClosing]
  have hlength := congrArg List.length h
  rw [length_rows, hsub, List.length_map] at hlength
  intro o ho
  have hall := List.length_filter_eq_length_iff.mp hlength o ho
  simpa using hall

private theorem items_append (os os' : List Occurrence) :
    items (os ++ os') = items os ++ items os' :=
  List.filter_append _ _

private theorem items_cons (h : o.isClosing = false) : items (o :: os) = o :: items os :=
  List.filter_cons_of_pos (by rw [h]; rfl)

private theorem items_closing (way : List FormStep) (g : Group) (os : List Occurrence) :
    items (⟨way, .closing g⟩ :: os) = items os :=
  List.filter_cons_of_neg (by simp [isClosing])

/-- The first line stands where it should if and only if the levels agree. -/
private theorem lines_cons_iff (hitem : o.isClosing = false) (hend : o.typedAsEnd = false)
    (c : Nat) :
    Outline.rows c ((o :: os).map row) = (items (o :: os)).map line ↔ c = o.depth ∧
      Outline.rows (if o.typedAsStart then c + 1 else c) (os.map row) = (items os).map line := by
  have hline : { o.line with depth := c } = o.line ↔ c = o.depth := by
    rw [line]
    simp
  rw [rows_of_not_end hend, items_cons hitem, List.map_cons, List.cons.injEq, hline]

/-- An outline that is too deep stays so. -/
private theorem lines_of_deeper (h : Leveled d os) {c : Nat} (hc : d < c)
    (hend : ∀ o ∈ items os, o.typedAsEnd = false) :
    Outline.rows c (os.map row) = (items os).map line ↔ items os = [] := by
  -- On the entries. A closing one takes both levels back, and any other has its line too deep.
  induction h generalizing c with
  | nil => simp [items, Outline.rows]
  | @question way q os _ _ =>
    have hitem : (mk way (.question q)).isClosing = false := rfl
    rw [items_cons hitem] at hend
    rw [lines_cons_iff hitem (hend _ (List.mem_cons_self ..)), items_cons hitem]
    simp [Nat.ne_of_gt hc]
  | @opening way g os _ _ =>
    have hitem : (mk way (.opening g)).isClosing = false := rfl
    rw [items_cons hitem] at hend
    rw [lines_cons_iff hitem (hend _ (List.mem_cons_self ..)), items_cons hitem]
    simp [Nat.ne_of_gt hc]
  | @closing d way g os _ ih =>
    rw [items_closing] at hend ⊢
    rw [rows_of_end (typedAsEnd_closing way g)]
    exact ih (by omega) hend

private theorem depth_of_top (h : Leveled 0 os) : ∀ n ∈ (items os).head?, n.depth = 0 := by
  generalize hd : 0 = d at h
  cases h with
  | nil => simp [items]
  | question _ | opening _ =>
    rw [items_cons rfl]
    rintro n hn
    rw [List.head?_cons, Option.mem_some_iff] at hn
    rw [← hn]
  | closing _ => cases hd

/-- An outline that is a level too high misplaces the next line, which is not at the top. -/
private theorem lines_of_higher (hitem : o.isClosing = false) (hend : o.typedAsEnd = false)
    {c : Nat} (hc : o.depth = c + 1) :
    Outline.rows c ((o :: os).map row) = (items (o :: os)).map line ↔
      (∀ n ∈ (items (o :: os)).head?, n.depth = 0) ∧ (items (o :: os)).IsChain KeepsStep := by
  rw [lines_cons_iff hitem hend, items_cons hitem, hc]
  simp [hc]

/-- An outline in step gives every entry its line if and only if it stays in step, and one that is
a level too high if and only if nothing has a line before it is back at the top. -/
private theorem lines_iff (h : Leveled d os) (hend : ∀ o ∈ items os, o.typedAsEnd = false) :
    (Outline.rows d (os.map row) = (items os).map line ↔ (items os).IsChain KeepsStep) ∧
      ∀ c, d = c + 1 → (Outline.rows c (os.map row) = (items os).map line ↔
        (∀ n ∈ (items os).head?, n.depth = 0) ∧ (items os).IsChain KeepsStep) := by
  -- On the entries; both at once, since a group that has lost its type leaves the outline a level
  -- too high, and the end of the outermost group brings it in step again.
  induction h with
  | nil => simp [items, Outline.rows]
  | @question way q os h ih =>
    have hitem : (mk way (.question q)).isClosing = false := rfl
    rw [items_cons hitem] at hend
    obtain ⟨hfirst, hrest⟩ := List.forall_mem_cons.mp hend
    refine ⟨?_, fun c => lines_of_higher hitem hfirst⟩
    have hkeeps (n : Occurrence) : (mk way (.question q)).KeepsStep n ↔
        (mk way (.question q)).typedAsStart = false := Iff.rfl
    rw [lines_cons_iff hitem hfirst, items_cons hitem, List.isChain_cons, and_iff_right rfl]
    simp only [hkeeps]
    cases (mk way (.question q)).typedAsStart with
    | false => simpa using (ih hrest).1
    | true =>
      rw [if_pos rfl, lines_of_deeper h (Nat.lt_succ_self _) hrest]
      cases items os <;> simp
  | @opening way g os h ih =>
    have hitem : (mk way (.opening g)).isClosing = false := rfl
    rw [items_cons hitem] at hend
    obtain ⟨hfirst, hrest⟩ := List.forall_mem_cons.mp hend
    refine ⟨?_, fun c => lines_of_higher hitem hfirst⟩
    have hkeeps (n : Occurrence) : (mk way (.opening g)).KeepsStep n ↔
        (mk way (.opening g)).typedAsStart = true ∨ n.depth = 0 := Iff.rfl
    rw [lines_cons_iff hitem hfirst, items_cons hitem, List.isChain_cons, and_iff_right rfl]
    simp only [hkeeps]
    cases (mk way (.opening g)).typedAsStart with
    | false => simpa using (ih hrest).2 _ rfl
    | true => simpa using (ih hrest).1
  | @closing d way g os h ih =>
    rw [items_closing] at hend ⊢
    refine ⟨?_, fun c hc => ?_⟩
    · rw [rows_of_end (typedAsEnd_closing way g)]
      exact (ih hend).1
    · rw [rows_of_end (typedAsEnd_closing way g)]
      obtain rfl : d = c := Nat.succ.inj hc
      cases d with
      | zero => exact (ih hend).1.trans (and_iff_right (depth_of_top h)).symm
      | succ d => exact (ih hend).2 d rfl

end Occurrence

namespace FormTree

open Occurrence (items Leveled)

/-- The entries of a tree stand at the level of their place, and what follows at the level of the
tree. -/
theorem leveled_occurrences (tree : FormTree) (way : List FormStep) (rest : List Occurrence)
    (h : Leveled (way.countP FormStep.entersGroup) rest) :
    Leveled (way.countP FormStep.entersGroup) (tree.occurrences way ++ rest) := by
  -- On the tree; the way is general, since only a group adds a level to it.
  have hsame (step : FormStep) (way : List FormStep) (hstep : step.entersGroup = false) :
      (way ++ [step]).countP FormStep.entersGroup = way.countP FormStep.entersGroup := by
    rw [List.countP_append, List.countP_singleton, hstep]
    rfl
  induction tree generalizing way rest with
  | nil => exact h
  | leaf item rest' ih =>
    cases item with
    | question q => exact .question (ih way rest h)
    | required value =>
      have hrest := ih (way ++ [.required value]) rest
      rw [hsame _ _ rfl] at hrest
      exact hrest h
    | settings f | choices c => exact ih way rest h
  | block part body rest' ihb ihr =>
    have hbody := ihb (way ++ [.within part])
    have hafter := ihr way rest h
    cases part with
    | conditional condition | included =>
      rw [occurrences, List.append_assoc]
      rw [hsame _ _ rfl] at hbody
      exact hbody _ hafter
    | group g =>
      have hlevel : (way ++ [FormStep.within (.group g)]).countP FormStep.entersGroup =
          way.countP FormStep.entersGroup + 1 := by
        rw [List.countP_append]
        rfl
      rw [hlevel] at hbody
      rw [occurrences, List.cons_append, List.cons_append, List.append_assoc, List.cons_append]
      exact .opening (hbody _ (.closing hafter))

/-- The questions and the groups and repeats of a tree, in order. -/
def items (tree : FormTree) : List Occurrence := Occurrence.items (tree.occurrences [])

/-- No question and no group is typed like an end. Behind a question that is typed like a start
there is nothing more; behind a group that is not, nothing before the top is reached again. -/
structure InStep (tree : FormTree) : Prop where
  shown : ∀ o ∈ tree.items, o.typedAsEnd = false
  keeps : tree.items.IsChain Occurrence.KeepsStep

theorem length_items (tree : FormTree) (way : List FormStep) :
    (Occurrence.items (tree.occurrences way)).length = tree.questionCount + tree.groupCount := by
  induction tree generalizing way with
  | nil => rfl
  | leaf item rest ih =>
    cases item with
    | question q =>
      have hrest := ih way
      rw [occurrences, questionCount, groupCount, Occurrence.items_cons rfl, List.length_cons,
        hrest]
      omega
    | required value => exact ih _
    | settings f | choices c => exact ih way
  | block part body rest ihb ihr =>
    have hbody := ihb (way ++ [.within part])
    have hrest := ihr way
    cases part with
    | conditional condition | included =>
      simp only [occurrences, questionCount, groupCount, Occurrence.items_append,
        List.length_append, hbody, hrest]
      omega
    | group g =>
      rw [occurrences, questionCount, groupCount, List.cons_append, Occurrence.items_cons rfl,
        Occurrence.items_append, Occurrence.items_closing, List.length_cons, List.length_append,
        hbody, hrest]
      omega

theorem lines_items_iff (tree : FormTree) (now : Moment) :
    Outline.rows 0 (tree.expand now ∅).survey = tree.items.map Occurrence.line ↔ tree.InStep := by
  have hrows : (tree.expand now ∅).survey = (tree.occurrences []).map Occurrence.row :=
    tree.survey_expand now []
  have hleveled := tree.leveled_occurrences [] [] .nil
  rw [List.append_nil] at hleveled
  rw [hrows]
  constructor
  · intro h
    have hend := Occurrence.typedAsEnd_of_lines h
    exact ⟨hend, (Occurrence.lines_iff hleveled hend).1.mp h⟩
  · intro h
    exact (Occurrence.lines_iff hleveled h.shown).1.mpr h.keeps

end FormTree

namespace Outline

/-- Names are kept at their first places. -/
theorem pairwise_eraseDups (names : List String) :
    names.eraseDups.Pairwise fun a b => names.idxOf a < names.idxOf b := by
  -- On the names from the last one on, which is kept if it is not among those in front.
  induction names using List.reverseRecOn with
  | nil => simp
  | append_singleton names name ih =>
    have hfront : names.eraseDups.Pairwise fun a b =>
        (names ++ [name]).idxOf a < (names ++ [name]).idxOf b := by
      refine ih.imp_of_mem fun ha hb hlt => ?_
      rwa [List.idxOf_append, List.idxOf_append, if_pos (List.mem_eraseDups.mp ha),
        if_pos (List.mem_eraseDups.mp hb)]
    rw [List.eraseDups_append]
    by_cases hname : name ∈ names
    · have hnone : [name].removeAll names = [] := by simp [List.removeAll, hname]
      rwa [hnone, List.eraseDups_nil, List.append_nil]
    · have hone : ([name].removeAll names).eraseDups = [name] := by
        simp [List.removeAll, hname, List.eraseDups_cons]
      rw [hone, List.pairwise_append]
      refine ⟨hfront, List.pairwise_singleton _ _, fun a ha b hb => ?_⟩
      have ha := List.mem_eraseDups.mp ha
      rw [List.mem_singleton.mp hb, List.idxOf_append, List.idxOf_append, if_pos ha, if_neg hname]
      exact Nat.lt_add_left _ (List.idxOf_lt_length_iff.mpr ha)

theorem sum_count_eraseDups (names : List String) :
    (names.eraseDups.map fun name => names.count name).sum = names.length := by
  have hnodup : names.eraseDups.Nodup :=
    (pairwise_eraseDups names).imp fun hlt => by
      rintro rfl
      exact Nat.lt_irrefl _ hlt
  have hperm : names.eraseDups.Perm names.dedup :=
    (List.perm_ext_iff_of_nodup hnodup names.nodup_dedup).mpr fun name => by
      rw [List.mem_eraseDups, List.mem_dedup]
  rw [(hperm.map _).sum_eq, List.sum_map_count_dedup_eq_length]

/-- The lists of choice rows: each name once and in the order of the first rows, with the number of
its rows. -/
structure Tallies (choices : List Row) (lists : List (String × Nat)) : Prop where
  order : (lists.map Prod.fst).Pairwise fun a b =>
    (choices.map (·.text "list_name")).idxOf a < (choices.map (·.text "list_name")).idxOf b
  mem : ∀ name count, (name, count) ∈ lists ↔
    (∃ row ∈ choices, row.text "list_name" = name) ∧
      count = (choices.filter (·.text "list_name" = name)).length
  total : (lists.map Prod.snd).sum = choices.length

theorem tallies_lists (choices : List Row) : Tallies choices (lists choices) := by
  have hnames : (lists choices).map Prod.fst = (choices.map (·.text "list_name")).eraseDups := by
    rw [lists, List.map_map]
    exact List.map_id _
  have hcount (name : String) : (choices.map (·.text "list_name")).count name =
      (choices.filter (·.text "list_name" = name)).length := by
    rw [List.count, List.countP_map, ← List.countP_eq_length_filter]
    refine List.countP_congr fun row _ => ?_
    simp
  refine ⟨?_, fun name count => ?_, ?_⟩
  · rw [hnames]
    exact pairwise_eraseDups _
  · rw [← hcount, lists]
    simp only [List.mem_map, List.mem_eraseDups, Prod.mk.injEq]
    constructor
    · rintro ⟨_, hmem, rfl, rfl⟩
      exact ⟨hmem, rfl⟩
    · rintro ⟨hmem, rfl⟩
      exact ⟨name, hmem, rfl, rfl⟩
  · have hsum := sum_count_eraseDups (choices.map (·.text "list_name"))
    rw [List.length_map] at hsum
    rw [lists, List.map_map]
    exact hsum

end Outline

/-- The line in front of an outline, and an empty one. -/
def Form.heading (f : Form) : String :=
  match f.settings with
  | some settings => settings.text "form_id" ++ " " ++ settings.text "version" ++ "\n\n"
  | none => ""

namespace Project

open Outline (rows lists)

variable {w : World} {source : String} {now : Moment} {form : Form}

/-- What the outline of a form that compiles is printed from. -/
theorem outline_eq (h : (Form.ofFile w.files.sources now source).result = .ok form) :
    ∃ w', outline source now w = .ok () w' ∧ w'.files = w.files ∧
      w'.out = w.out ++ (form.heading ++
        String.join ((rows 0 form.survey).map fun l =>
          terminal.outline l.depth l.type l.name l.label) ++
        (if (lists form.choices).isEmpty then "" else "\n") ++
        String.join ((lists form.choices).map fun l => terminal.choiceList l.1 l.2)) := by
  have hcompile : Job.compile now source w =
      .ok form { w with log := w.log ++ (Form.ofFile w.files.sources now source).log } := by
    have hcheck : (Job.check .compile (Form.ofFile w.files.sources now source).result : Job Form) =
        pure form := by
      rw [h]
      rfl
    change (Job.check .compile (Form.ofFile w.files.sources now source).result : Job Form) _ = _
    rw [hcheck]
    rfl
  have hrender : Outline.render terminal form = form.heading ++
      String.join ((rows 0 form.survey).map fun l =>
        terminal.outline l.depth l.type l.name l.label) ++
      (if (lists form.choices).isEmpty then "" else "\n") ++
      String.join ((lists form.choices).map fun l => terminal.choiceList l.1 l.2) := by
    have hempty : (lists form.choices).isEmpty =
        ((lists form.choices).map fun l => terminal.choiceList l.1 l.2).isEmpty :=
      List.isEmpty_map.symm
    rw [hempty]
    rfl
  have hrun : outline source now w = .ok ()
      { w with
        log := w.log ++ (Form.ofFile w.files.sources now source).log
        out := w.out ++ Outline.render terminal form } :=
    Job.bind_of_ok hcompile
  rw [hrender] at hrun
  exact ⟨_, hrun, rfl, rfl⟩

/-- The outline of a form that compiles has its settings, then the lines of the survey, then a line
for each list with the number of its choices, which add up to all of them. There are as many
questions, groups and repeats as the source has with its files in their places. Exactly when none is
typed so that the outline gets out of step, each of them has its line at its depth and there is no
other. -/
theorem outline_mirrors_iff (h : (Form.ofFile w.files.sources now source).result = .ok form) :
    (∃ w', outline source now w = .ok () w' ∧ w'.files = w.files ∧
      w'.out = w.out ++ (form.heading ++
        String.join ((rows 0 form.survey).map fun l =>
          terminal.outline l.depth l.type l.name l.label) ++
        (if (lists form.choices).isEmpty then "" else "\n") ++
        String.join ((lists form.choices).map fun l => terminal.choiceList l.1 l.2))) ∧
      Outline.Tallies form.choices (lists form.choices) ∧
      (∃ tree, w.files.sources.Resolved source tree) ∧
      ∀ tree, w.files.sources.Resolved source tree →
        tree.items.length = tree.questionCount + tree.groupCount ∧
          (rows 0 form.survey = tree.items.map Occurrence.line ↔ tree.InStep) := by
  refine ⟨outline_eq h, Outline.tallies_lists _, ?_⟩
  refine Form.forall_resolved_of_ofFile (P := fun tree form =>
    tree.items.length = tree.questionCount + tree.groupCount ∧
      (rows 0 form.survey = tree.items.map Occurrence.line ↔ tree.InStep)) h fun tree => ?_
  exact ⟨tree.length_items [], tree.lines_items_iff now⟩

private def groupedText : String := "@form f 1 F\ngroup g:\n  q text: \"A\"\nlast note: \"B\""

private def projectWith (text : String) : World :=
  ⟨(FileTree.ofHome ["proj"]).put ["proj", "f.comb"] (.text text), "", []⟩

private def groupedTree : FormTree :=
  .leaf (.settings ⟨"f", "1", "F", Row.ofList []⟩) <|
    .block (.group ⟨⟨"f.comb", 2, 1⟩, .group, "g", none, [], none⟩)
      (.leaf (.question ⟨⟨"f.comb", 3, 3⟩, "q", ["text"], some "A", []⟩) .nil) <|
      .leaf (.question ⟨⟨"f.comb", 4, 1⟩, "last", ["note"], some "B", []⟩) .nil

theorem groupedText_outline_mirrors :
    (Form.ofFile (projectWith groupedText).files.sources ⟨0, 0⟩ "f.comb").result =
        .ok (groupedTree.expand ⟨0, 0⟩ ∅) ∧
      (projectWith groupedText).files.sources.Resolved "f.comb" groupedTree ∧
      groupedTree.InStep ∧
      ∃ w, outline "f.comb" ⟨0, 0⟩ (projectWith groupedText) = .ok () w ∧
        w.out = "f 1\n\nbegin group g\n  text q  A\nnote last  B\n" := by
  have hform : (Form.ofFile (projectWith groupedText).files.sources ⟨0, 0⟩ "f.comb").result =
      .ok (groupedTree.expand ⟨0, 0⟩ ∅) := eq_ok_of_toOption (by decide +kernel)
  have htree : (projectWith groupedText).files.sources.Resolved "f.comb" groupedTree := by
    refine ⟨groupedText, _, eq_ok_of_toOption (by decide +kernel),
      eq_ok_of_toOption (a := .leaf (.command ⟨⟨"f.comb", 1, 1⟩, "form", "f", ["1", "F"]⟩) <|
        .block (.group ⟨⟨"f.comb", 2, 1⟩, .group, "g", none, [], none⟩)
          (.leaf (.question ⟨⟨"f.comb", 3, 3⟩, "q", ["text"], some "A", []⟩) .nil) <|
          .leaf (.question ⟨⟨"f.comb", 4, 1⟩, "last", ["note"], some "B", []⟩) .nil)
        (by decide +kernel), ?_⟩
    exact .form rfl rfl (.block (.question .nil) (.question .nil))
  obtain ⟨⟨w, hrun, -, hout⟩, -, -, hmirrors⟩ := outline_mirrors_iff hform
  refine ⟨hform, htree, (hmirrors _ htree).2.mp (by decide +kernel), w, hrun, ?_⟩
  rw [hout]
  decide +kernel

private def startingTree : FormTree :=
  .leaf (.question ⟨⟨"f.comb", 1, 1⟩, "q", ["begin", "x"], some "L", []⟩) <|
    .leaf (.question ⟨⟨"f.comb", 2, 1⟩, "r", ["text"], none, []⟩) .nil

/-- A question that is typed like the start of a group, with no group anywhere. -/
theorem starting_question_indents_next :
    (projectWith "q begin x: \"L\"\nr text:").files.sources.Resolved "f.comb" startingTree ∧
      startingTree.groupCount = 0 ∧
      (∃ w, outline "f.comb" ⟨0, 0⟩ (projectWith "q begin x: \"L\"\nr text:") = .ok () w ∧
        w.out = "begin x q  L\n  text r\n") ∧
      ¬ rows 0 (startingTree.expand ⟨0, 0⟩ ∅).survey = startingTree.items.map Occurrence.line := by
  have hform : (Form.ofFile (projectWith "q begin x: \"L\"\nr text:").files.sources ⟨0, 0⟩
      "f.comb").result = .ok (startingTree.expand ⟨0, 0⟩ ∅) :=
    eq_ok_of_toOption (by decide +kernel)
  obtain ⟨w, hrun, -, hout⟩ := outline_eq hform
  refine ⟨?_, rfl, ⟨w, hrun, ?_⟩, by decide +kernel⟩
  · refine ⟨"q begin x: \"L\"\nr text:", _, eq_ok_of_toOption (by decide +kernel),
      eq_ok_of_toOption (a := .leaf
        (.question ⟨⟨"f.comb", 1, 1⟩, "q", ["begin", "x"], some "L", []⟩) <|
        .leaf (.question ⟨⟨"f.comb", 2, 1⟩, "r", ["text"], none, []⟩) .nil)
        (by decide +kernel), ?_⟩
    exact .question (.question .nil)
  · rw [hout]
    decide +kernel

end Project
end SurveyForms
