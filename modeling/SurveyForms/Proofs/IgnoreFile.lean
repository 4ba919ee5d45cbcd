import SurveyForms.Project.Commands
import SurveyForms.Proofs.FileTrees
import SurveyForms.Proofs.Jobs
import SurveyForms.Proofs.Joining

/-! The ignore file of a project. A run keeps every line of it and adds one for the registry if
there is none yet. Main result: for which registries the line is found again by the next run. -/
namespace SurveyForms

namespace Text

/-- What stays begins with no white space. -/
theorem any_isBlank_head?_trim (cs : List Char) : (trim cs).head?.any isBlank = false := by
  cases hstart : trimStart cs with
  | nil =>
    rw [trim, hstart]
    rfl
  | cons d ds =>
    have hd : isBlank d = false := by
      have hnot := List.head?_dropWhile_not isBlank cs
      rw [← trimStart, hstart] at hnot
      simpa using hnot
    have hkept : ∀ c ∈ [d].getLast?, ¬ isBlank c := by
      rintro c ⟨⟩
      exact Bool.eq_false_iff.mp hd
    have htrim : trim cs = d :: trimEnd ds := by
      rw [trim, hstart]
      exact trimEnd_append hkept ds
    rw [htrim]
    exact hd

end Text

namespace Ignore

open Text

variable {registry : String}

/-- The entry fits in a line and is what trimming leaves of it. -/
def Findable (registry : String) : Prop :=
  '\n' ∉ registry.toList ∧ registry.toList.head?.any isBlank = false

instance (registry : String) : Decidable (Findable registry) :=
  inferInstanceAs (Decidable (_ ∧ _))

theorem toList_entry (registry : String) : (entry registry).toList = registry.toList ++ ['*'] :=
  String.toList_append

theorem mentions_iff {e content : String} : mentions e content = true ↔
    ∃ line ∈ lines content.toList, trim line = e.toList := by
  simp only [mentions, List.any_eq_true, beq_iff_eq, ← String.toList_inj, String.toList_ofList]

/-- The star at its end is no white space, so trimming can only take away from its start. -/
theorem Findable.trim_entry (h : Findable registry) :
    trim (entry registry).toList = (entry registry).toList := by
  have hend (cs : List Char) : trimEnd (cs ++ ['*']) = cs ++ ['*'] := by
    have hlast : ∀ c ∈ (cs ++ ['*']).getLast?, ¬ isBlank c := by
      rw [List.getLast?_concat]
      rintro c ⟨⟩
      decide
    have hadd := trimEnd_append hlast []
    rw [List.append_nil] at hadd
    exact hadd.trans (List.append_nil _)
  rw [toList_entry]
  cases hcs : registry.toList with
  | nil => rfl
  | cons c cs =>
    have hc : ¬ isBlank c := by
      have hfirst := h.2
      rw [hcs, List.head?_cons, Option.any_some] at hfirst
      exact Bool.eq_false_iff.mp hfirst
    have htrim := trim_append_cons (List.forall_mem_nil _) hc (cs ++ ['*'])
    rwa [hend] at htrim

/-- A line that trimming leaves the entry of. -/
theorem findable_of_mentions {content : String} (h : mentions (entry registry) content = true) :
    Findable registry := by
  obtain ⟨line, hline, htrim⟩ := mentions_iff.mp h
  rw [toList_entry] at htrim
  constructor
  · intro hbreak
    have hin : '\n' ∈ trim line := by
      rw [htrim]
      exact List.mem_append_left _ hbreak
    exact not_mem_of_mem_cut hline ((List.dropWhile_suffix isBlank).subset (mem_of_mem_trimEnd hin))
  · have hhead := any_isBlank_head?_trim line
    rw [htrim, List.head?_append] at hhead
    cases hcs : registry.toList.head? with
    | none => rfl
    | some c =>
      rw [hcs] at hhead
      exact hhead

private theorem lines_break (cs : List Char) : lines (cs ++ ['\n']) = lines cs ++ [[]] :=
  cut_append_sep '\n' cs []

/-- The lines of an extended content: those of the content, of which an empty last one is left out,
those of the entry and an empty last one. -/
theorem lines_extend (e content : String) : ∃ before,
    lines (extend e content).toList = before ++ lines e.toList ++ [[]] ∧
      (lines content.toList = before ∨ lines content.toList = before ++ [[]]) := by
  have hlast (ended : String) : lines (ended ++ e ++ "\n").toList =
      lines (ended ++ e).toList ++ [[]] := by
    rw [String.toList_append]
    exact lines_break _
  have hafter (cs : List Char) : lines (cs ++ '\n' :: e.toList) = lines cs ++ lines e.toList :=
    cut_append_sep '\n' cs _
  rw [extend]
  by_cases hended : (content.isEmpty || content.toList.getLast? == some '\n') = true
  · rw [if_pos hended, hlast, String.toList_append]
    simp only [Bool.or_eq_true, String.isEmpty_iff, beq_iff_eq] at hended
    rcases hended with rfl | hbreak
    · exact ⟨[], rfl, .inr rfl⟩
    · obtain ⟨cs, hcs⟩ := List.getLast?_eq_some_iff.mp hbreak
      rw [hcs, lines_break, List.append_assoc, List.singleton_append, hafter]
      exact ⟨lines cs, rfl, .inr rfl⟩
  · rw [if_neg hended, hlast]
    refine ⟨lines content.toList, ?_, .inl rfl⟩
    rw [String.toList_append, String.toList_append, List.append_assoc]
    exact congrArg (· ++ [[]]) (hafter _)

theorem sublist_lines_extend (e content : String) :
    (lines content.toList).Sublist (lines (extend e content).toList) := by
  obtain ⟨before, hnew, hold⟩ := lines_extend e content
  rw [hnew, List.append_assoc]
  rcases hold with hold | hold
  · rw [hold]
    exact List.sublist_append_left _ _
  · rw [hold]
    exact (List.sublist_append_right _ _).append_left _

theorem prefix_extend (e content : String) : content.toList <+: (extend e content).toList := by
  rw [extend, String.toList_append, String.toList_append, List.append_assoc]
  split
  · exact List.prefix_append _ _
  · rw [String.toList_append, List.append_assoc]
    exact List.prefix_append _ _

theorem Findable.mentions_extend (h : Findable registry) (content : String) :
    mentions (entry registry) (extend (entry registry) content) = true := by
  obtain ⟨before, hnew, -⟩ := lines_extend (entry registry) content
  have hline : lines (entry registry).toList = [(entry registry).toList] := by
    refine cut_of_not_mem ?_
    rw [toList_entry, List.mem_append, List.mem_singleton]
    exact fun hbreak => hbreak.elim h.1 (by decide)
  rw [mentions_iff, hnew, hline]
  exact ⟨_, by simp, h.trim_entry⟩

/-- A content that has the entry stays, and any other is extended. -/
theorem update_eq (registry : String) (old : Option String) :
    (∃ content, old = some content ∧ mentions (entry registry) content = true ∧
      update registry old = (none, [entry registry ++ " already in " ++ fileName])) ∨
    ∃ said, update registry old = (some (extend (entry registry) (old.getD "")), said) := by
  cases old with
  | none =>
    refine .inr ⟨[fileName ++ " created", entry registry ++ " added to " ++ fileName], ?_⟩
    rw [update, Option.getD_none, extend, if_pos (by decide), String.empty_append]
  | some content =>
    rw [update, Option.getD_some]
    by_cases h : mentions (entry registry) content = true
    · rw [if_pos h]
      exact .inl ⟨content, rfl, h, rfl⟩
    · rw [if_neg h]
      exact .inr ⟨_, rfl⟩

end Ignore

namespace Project

open Ignore (fileName entry update mentions extend Findable)
open Text (lines trim)

variable {registry : String} {old : Option String} {w : World}

/-- What a run does where the ignore file is a text or is not there, and can be written. -/
theorem ignoreRegistry_eq (registry : String) (old : Option String)
    (hwrite : w.files.readOnly = false)
    (hold : w.files.find? (w.files.locate fileName) = old.map Content.text) :
    ignoreRegistry registry w = .ok () ⟨(update registry old).1.elim w.files fun content =>
        w.files.put (w.files.locate fileName) (.text content),
      w.out ++ String.join ((update registry old).2.map (· ++ "\n")), w.log⟩ := by
  have hfiles : Job.files w = .ok w.files w := rfl
  have hread : w.files.readText fileName =
      (old.elim (.error (.failed "open" fileName .noEntry)) .ok : Except FileError String) := by
    have hreach : w.files.reach fileName = .ok () := rfl
    rw [FileTree.readText, FileTree.openFile, FileTree.stat, hreach, hold]
    cases old <;> rfl
  have hput (content : String) : w.files.writeFile fileName (.text content) =
      .ok (w.files.put (w.files.locate fileName) (.text content)) := by
    refine FileTree.writeFile_eq_ok_iff.mpr ⟨hwrite, rfl, ?_, rfl⟩
    rw [hold]
    cases old <;> simp
  obtain ⟨⟨new, said⟩, hupdate⟩ : ∃ result, update registry old = result := ⟨_, rfl⟩
  rw [hupdate]
  refine (Job.bind_of_ok hfiles).trans ?_
  rw [hread]
  cases old <;>
    simp only [Option.elim_none, Option.elim_some, FileError.isMissing, pure_bind, hupdate]
  all_goals
    cases new with
    | none => rfl
    | some content =>
      simp only [hput]
      rfl

/-- A run that leaves this content in the ignore file, with all that was there. -/
structure Rewrites (registry : String) (old : Option String) (w w' : World) (new : String) :
    Prop where
  run : ignoreRegistry registry w = .ok () w'
  found : w'.files.find? (w'.files.locate fileName) = some (.text new)
  kept : ∀ content ∈ old, content.toList <+: new.toList ∧
    (lines content.toList).Sublist (lines new.toList)

/-- A run that leaves the entry on a line, which the next run finds and changes nothing. -/
structure Ignores (registry : String) (old : Option String) (w w' : World) : Prop where
  covers : ∃ new, Rewrites registry old w w' new ∧
    ∃ line ∈ lines new.toList, trim line = (entry registry).toList
  again : ignoreRegistry registry w' =
    .ok () { w' with out := w'.out ++ (entry registry ++ " already in .gitignore\n") }

theorem exists_rewrites (registry : String) (hwrite : w.files.readOnly = false)
    (hold : w.files.find? (w.files.locate fileName) = old.map Content.text) :
    ∃ w' new, Rewrites registry old w w' new ∧ w'.files.readOnly = false ∧
      (Findable registry → mentions (entry registry) new = true) := by
  have hrun := ignoreRegistry_eq registry old hwrite hold
  rcases Ignore.update_eq registry old with ⟨content, rfl, hmentions, hupdate⟩ | ⟨said, hupdate⟩
  · rw [hupdate] at hrun
    refine ⟨_, content, ⟨hrun, hold, ?_⟩, hwrite, fun _ => hmentions⟩
    rintro _ ⟨⟩
    exact ⟨List.prefix_refl _, List.Sublist.refl _⟩
  · rw [hupdate] at hrun
    have hroot : w.files.locate fileName ≠ [] := by
      have hplace : w.files.locate fileName = (fileName :: w.files.home.reverse).reverse := rfl
      simp [hplace]
    have hfound := (w.files.find?_put hroot
      (.text (extend (entry registry) (old.getD ""))) (w.files.locate fileName)).trans (if_pos rfl)
    refine ⟨_, _, ⟨hrun, hfound, ?_⟩, hwrite, fun h => h.mentions_extend (old.getD "")⟩
    rintro content ⟨⟩
    exact ⟨Ignore.prefix_extend _ _, Ignore.sublist_lines_extend _ _⟩

/-- A run over a content that has the entry. -/
theorem ignoreRegistry_of_mentions {content : String} (hwrite : w.files.readOnly = false)
    (hold : w.files.find? (w.files.locate fileName) = some (.text content))
    (hmentions : mentions (entry registry) content = true) :
    ignoreRegistry registry w =
      .ok () { w with out := w.out ++ (entry registry ++ " already in .gitignore\n") } := by
  have hline : String.join ([entry registry ++ " already in " ++ fileName].map (· ++ "\n")) =
      entry registry ++ " already in .gitignore\n" := by
    rw [List.map_singleton, String.join_cons, String.join_nil, String.append_empty,
      String.append_assoc, String.append_assoc]
    rfl
  rw [ignoreRegistry_eq registry (some content) hwrite hold, update, if_pos hmentions, hline,
    Option.elim_none]

/-- Where the ignore file is a text or is not there, and can be written, a run keeps all that was
there. It leaves the entry on a line of its own that the next run finds if and only if the registry
has no line break and begins with no white space. -/
theorem ignores_iff (hwrite : w.files.readOnly = false)
    (hold : w.files.find? (w.files.locate fileName) = old.map Content.text) :
    (∃ w' new, Rewrites registry old w w' new) ∧
      ((∃ w', Ignores registry old w w') ↔ Findable registry) := by
  obtain ⟨w', new, hrewrites, hwrite', hmentions⟩ := exists_rewrites registry hwrite hold
  refine ⟨⟨w', new, hrewrites⟩, ?_, fun h => ⟨w', ⟨new, hrewrites, ?_⟩, ?_⟩⟩
  · rintro ⟨_, ⟨_, _, hline⟩, _⟩
    exact Ignore.findable_of_mentions (Ignore.mentions_iff.mpr hline)
  · exact Ignore.mentions_iff.mp (hmentions h)
  · exact ignoreRegistry_of_mentions hwrite' hrewrites.found (hmentions h)

private def bareProject : World := ⟨FileTree.ofHome ["proj"], "", []⟩

private def ignoringProject : World :=
  { bareProject with
    files := (FileTree.ofHome ["proj"]).put ["proj", ".gitignore"] (.text "*.xlsx\r\n\tr.db*") }

/-- Another registry is named behind a line that has no end, and the last of the old lines covers
its own registry though there is a tab in front of it. -/
theorem ignoringProject_ignores :
    ignoringProject.files.readOnly = false ∧
      ignoringProject.files.find? (ignoringProject.files.locate fileName) =
        some (.text "*.xlsx\r\n\tr.db*") ∧
      (∃ w', Ignores "b.db" (some "*.xlsx\r\n\tr.db*") ignoringProject w') ∧
      ∃ w', Ignores "r.db" (some "*.xlsx\r\n\tr.db*") ignoringProject w' := by
  have hwrite : ignoringProject.files.readOnly = false := rfl
  have hold : ignoringProject.files.find? (ignoringProject.files.locate fileName) =
      some (.text "*.xlsx\r\n\tr.db*") := by decide +kernel
  refine ⟨hwrite, hold, ?_, ?_⟩
  · exact (@ignores_iff _ (some _) _ hwrite hold).2.mpr (by decide)
  · exact (@ignores_iff _ (some _) _ hwrite hold).2.mpr (by decide)

/-- A registry with a space in front is named again by every run. -/
theorem indented_registry_named_twice :
    (∃ w w', ignoreRegistry " r.db" bareProject = .ok () w ∧
      ignoreRegistry " r.db" w = .ok () w' ∧
      w.files.find? ["proj", ".gitignore"] = some (.text " r.db*\n") ∧
      w'.files.find? ["proj", ".gitignore"] = some (.text " r.db*\n r.db*\n")) ∧
      ¬ ∃ w, Ignores " r.db" none bareProject w := by
  have hnone : bareProject.files.find? (bareProject.files.locate fileName) = none := by
    decide +kernel
  have hfirst := ignoreRegistry_eq " r.db" none rfl hnone
  refine ⟨⟨_, _, hfirst, ignoreRegistry_eq " r.db" (some " r.db*\n") rfl (by decide +kernel),
    by decide +kernel, by decide +kernel⟩, ?_⟩
  rintro ⟨_, ⟨_, _, hline⟩, _⟩
  have hfindable := Ignore.findable_of_mentions (Ignore.mentions_iff.mpr hline)
  exact absurd hfindable (by decide)

end Project
end SurveyForms
