import Mathlib.Data.List.Induction
import SurveyForms.Proofs.Paths
import SurveyForms.Workbook.File

/-! Changes of a file tree. Whatever is written goes into a directory and over no directory, so
a tree in which every entry stands in a directory stays one. A workbook that was saved can be
loaded. -/
namespace SurveyForms

open SurveyForms.Path (rawNames step)

namespace FileTree

variable {t t' : FileTree} {names : List String} {path : String}

theorem find?_put (t : FileTree) {names : List String} (h : names ≠ []) (content : Content)
    (other : List String) : (t.put names content).find? other =
      if other = names then some content else t.find? other := by
  unfold find? put
  simp only [List.isEmpty_iff]
  by_cases hroot : other = []
  · rw [if_pos hroot, if_pos hroot, if_neg (hroot ▸ Ne.symm h)]
  rw [if_neg hroot, if_neg hroot, List.find?_append, List.find?_filter]
  by_cases hother : other = names
  · subst hother
    have hnone : t.entries.find? (fun e : List String × Content =>
        decide (decide (e.1 ≠ other) = true ∧ decide (e.1 = other) = true)) = none := by
      refine List.find?_eq_none.mpr fun e _ => ?_
      by_cases he : e.1 = other <;> simp [he]
    rw [hnone]
    simp
  · have hsame : (fun e : List String × Content =>
        decide (decide (e.1 ≠ names) = true ∧ decide (e.1 = other) = true)) =
        fun e => decide (e.1 = other) := by
      funext e
      by_cases he : e.1 = other <;> simp [he, hother]
    have hlast : [(names, content)].find? (fun e => decide (e.1 = other)) = none := by
      simp [Ne.symm hother]
    rw [hsame, hlast, Option.or_none, if_neg hother]

theorem put_put (t : FileTree) (names : List String) (first second : Content) :
    (t.put names first).put names second = t.put names second := by
  simp [put, List.filter_append, List.filter_filter]

/-- Every entry stands in a directory, and there is a working directory. -/
structure WellFormed (t : FileTree) : Prop where
  parent : ∀ e ∈ t.entries, t.find? e.1.dropLast = some .directory
  home : t.find? t.home = some .directory

instance (t : FileTree) : Decidable t.WellFormed :=
  decidable_of_iff ((∀ e ∈ t.entries, t.find? e.1.dropLast = some .directory) ∧
    t.find? t.home = some .directory) ⟨fun h => ⟨h.1, h.2⟩, fun h => ⟨h.parent, h.home⟩⟩

namespace WellFormed

theorem find?_dropLast (h : t.WellFormed) {content : Content}
    (hfind : t.find? names = some content) : t.find? names.dropLast = some .directory := by
  unfold find? at hfind
  split at hfind
  · next hroot =>
    rw [List.isEmpty_iff.mp hroot]
    rfl
  · obtain ⟨e, he, _⟩ := Option.map_eq_some_iff.mp hfind
    have hnames : e.1 = names := by simpa using List.find?_some he
    rw [← hnames]
    exact h.parent e (List.mem_of_find?_eq_some he)

/-- What leads to a directory are directories. -/
theorem directory_of_front (h : t.WellFormed) {outer : List String}
    (hfind : t.find? names = some .directory) (hfront : outer <+: names) :
    t.find? outer = some .directory := by
  obtain ⟨inner, rfl⟩ := hfront
  induction inner using List.reverseRecOn with
  | nil => rwa [List.append_nil] at hfind
  | append_singleton inner name ih =>
    have hparent := h.find?_dropLast hfind
    rw [← List.append_assoc, List.dropLast_concat] at hparent
    exact ih hparent

/-- Something is put into a directory, over no directory. -/
theorem put (h : t.WellFormed) {content : Content} (hne : names ≠ [])
    (hparent : t.find? names.dropLast = some .directory)
    (hold : t.find? names ≠ some .directory ∨ content = .directory) :
    (t.put names content).WellFormed := by
  have hkept (other : List String) (hother : t.find? other = some .directory) :
      (t.put names content).find? other = some .directory := by
    rw [find?_put t hne]
    split
    · next heq =>
      rw [hold.resolve_left fun hnot => hnot (heq ▸ hother)]
    · exact hother
  refine ⟨fun e he => ?_, hkept _ h.home⟩
  rcases List.mem_append.mp he with he | he
  · exact hkept _ (h.parent e (List.mem_filter.mp he).1)
  · rw [List.mem_singleton.mp he]
    exact hkept _ hparent

end WellFormed

/-- Where the walk along a path starts, innermost first. -/
def start (t : FileTree) (path : String) : List String :=
  if Path.isAbsolute path then [] else t.home.reverse

theorem WellFormed.find?_start (h : t.WellFormed) (path : String) :
    t.find? (t.start path).reverse = some .directory := by
  unfold start
  split
  · rfl
  · rw [List.reverse_reverse]
    exact h.home

/-- A step stays, leaves a directory or enters the name. -/
theorem step_cases (walked : List String) (name : String) : step true walked name = walked ∨
    step true walked name = walked.tail ∨ step true walked name = name :: walked := by
  unfold step
  split
  · exact .inl rfl
  · split
    · next hup =>
      cases walked with
      | nil => exact .inl rfl
      | cons last outer =>
        simp only
        split
        · exact .inr (.inr (by rw [hup]))
        · exact .inr (.inl rfl)
    · exact .inr (.inr rfl)

theorem passable_cons (t : FileTree) (walked : List String) (name : String) (rest : List String) :
    t.passable walked (name :: rest) = .ok () ↔ name.utf8ByteSize ≤ maxName ∧
      (rest = [] ∨ t.find? (step true walked name).reverse = some .directory ∧
        t.passable (step true walked name) rest = .ok ()) := by
  rw [passable]
  by_cases hname : name.utf8ByteSize > maxName
  · rw [if_pos hname]
    constructor
    · intro h
      cases h
    · intro h
      exact absurd h.1 (Nat.not_le.mpr hname)
  rw [if_neg hname]
  simp only [Nat.not_lt.mp hname, true_and, List.isEmpty_iff]
  by_cases hrest : rest = []
  · simp [hrest]
  rw [if_neg hrest]
  simp only [hrest, false_or]
  split
  · next hnext => simp [hnext]
  · next hnot hnext => simpa [hnext] using fun h => absurd h hnot
  · next hnext => simp [hnext]

/-- A walk through directories ends at one, or at a name in one. -/
theorem parent_of_passable (h : t.WellFormed) {walked : List String}
    (hwalked : t.find? walked.reverse = some .directory)
    (hpass : t.passable walked names = .ok ()) :
    t.find? (names.foldl (step true) walked).reverse = some .directory ∨
      t.find? (names.foldl (step true) walked).reverse.dropLast = some .directory := by
  induction names generalizing walked with
  | nil => exact .inl hwalked
  | cons name rest ih =>
    obtain ⟨_, rfl | ⟨hnext, hpass⟩⟩ := (t.passable_cons _ _ _).mp hpass
    · rw [List.foldl_cons, List.foldl_nil]
      rcases step_cases walked name with hstep | hstep | hstep
      · rw [hstep]
        exact .inl hwalked
      · rw [hstep, ← List.dropLast_reverse]
        exact .inl (h.find?_dropLast hwalked)
      · rw [hstep, List.reverse_cons, List.dropLast_concat]
        exact .inr hwalked
    · exact ih hnext hpass

theorem parent_of_reach (h : t.WellFormed) (hreach : t.reach path = .ok ()) :
    t.find? (t.locate path) = some .directory ∨
      t.find? (t.locate path).dropLast = some .directory := by
  unfold reach at hreach
  cases hadmissible : admissible path with
  | error cause => rw [hadmissible] at hreach; cases hreach
  | ok =>
    rw [hadmissible] at hreach
    exact parent_of_passable h (h.find?_start path) hreach

theorem reach_of_reachNew (h : t.reachNew path = .ok ()) : t.reach path = .ok () := by
  unfold reachNew at h
  simp only at h
  split at h
  · exact h
  · -- a slash at the end is refused, whatever the way there
    exfalso
    revert h
    cases admissible path with
    | error cause => exact fun h => by cases h
    | ok =>
      generalize t.passable _ _ = way
      cases way with
      | error cause => exact fun h => by cases h
      | ok => exact fun h => by cases h

/-- What is written stands in a directory and over no directory. -/
structure Writes (t : FileTree) (names : List String) (content : Content) (t' : FileTree) :
    Prop where
  eq_put : t' = t.put names content
  ne_root : names ≠ []
  parent : t.find? names.dropLast = some .directory
  old : t.find? names ≠ some .directory ∨ content = .directory

namespace Writes

variable {content : Content}

theorem wellFormed (h : t.Writes names content t') (ht : t.WellFormed) : t'.WellFormed := by
  rw [h.eq_put]
  exact ht.put h.ne_root h.parent h.old

theorem find? (h : t.Writes names content t') (other : List String) :
    t'.find? other = if other = names then some content else t.find? other := by
  rw [h.eq_put]
  exact t.find?_put h.ne_root content other

theorem find?_self (h : t.Writes names content t') : t'.find? names = some content := by
  rw [h.find?, if_pos rfl]

theorem find?_other (h : t.Writes names content t') {other : List String} (hne : other ≠ names) :
    t'.find? other = t.find? other := by
  rw [h.find?, if_neg hne]

/-- Directories stay. -/
theorem directory (h : t.Writes names content t') {other : List String}
    (hother : t.find? other = some .directory) : t'.find? other = some .directory := by
  rw [h.find?]
  split
  · next heq => rw [h.old.resolve_left fun hnot => hnot (heq ▸ hother)]
  · exact hother

theorem home (h : t.Writes names content t') : t'.home = t.home := by rw [h.eq_put]; rfl

theorem locate (h : t.Writes names content t') (path : String) :
    t'.locate path = t.locate path := by
  rw [h.eq_put]
  rfl

/-- A further write to the same place. -/
theorem again (h : t.Writes names content t') {more : Content}
    (hmore : content ≠ .directory ∨ more = .directory) :
    t'.Writes names more (t'.put names more) := by
  refine ⟨rfl, h.ne_root, h.directory h.parent, ?_⟩
  rcases hmore with hmore | hmore
  · rw [h.find?_self]
    exact .inl fun heq => hmore (Option.some.inj heq)
  · exact .inr hmore

/-- Of two writes to the same place the second counts. -/
theorem trans {t'' : FileTree} {more : Content} (h : t.Writes names content t')
    (h' : t'.Writes names more t'') : t.Writes names more t'' := by
  refine ⟨?_, h.ne_root, h.parent, ?_⟩
  · rw [h'.eq_put, h.eq_put, put_put]
  · rcases h.old with hold | hdirectory
    · exact .inl hold
    · rcases h'.old with hold | hmore
      · exact absurd (hdirectory ▸ h.find?_self) hold
      · exact .inr hmore

/-- A way that can be walked can still be walked. -/
theorem passable (h : t.Writes names content t') {walked way : List String}
    (hpass : t.passable walked way = .ok ()) : t'.passable walked way = .ok () := by
  induction way generalizing walked with
  | nil => rfl
  | cons name rest ih =>
    rw [passable_cons] at hpass ⊢
    refine hpass.imp_right (Or.imp_right ?_)
    rintro ⟨hnext, hpass⟩
    exact ⟨h.directory hnext, ih hpass⟩

theorem reach (h : t.Writes names content t') (hreach : t.reach path = .ok ()) :
    t'.reach path = .ok () := by
  unfold FileTree.reach at hreach ⊢
  cases hadmissible : admissible path with
  | error cause => rw [hadmissible] at hreach; cases hreach
  | ok =>
    rw [hadmissible] at hreach
    rw [h.home]
    exact h.passable hreach

end Writes

/-- A file is written where the way can be walked, over no directory. -/
theorem writeFile_eq_ok_iff {content : Content} : t.writeFile path content = .ok t' ↔
    t.readOnly = false ∧ t.reachNew path = .ok () ∧
      t.find? (t.locate path) ≠ some .directory ∧ t' = t.put (t.locate path) content := by
  unfold writeFile
  cases t.readOnly with
  | true => simp
  | false =>
    cases t.reachNew path with
    | error cause => simp [Except.mapError, bind, Except.bind]
    | ok =>
      simp only [Except.mapError, bind, Except.bind, Bool.false_eq_true, if_false, true_and]
      split
      · next hold => simp [hold]
      · next hold =>
        have hold : t.find? (t.locate path) ≠ some .directory := hold
        simp [hold, eq_comm]

theorem writes_of_writeFile (h : t.WellFormed) {content : Content}
    (hwrite : t.writeFile path content = .ok t') :
    t.Writes (t.locate path) content t' ∧ t.reach path = .ok () := by
  obtain ⟨-, hreach, hold, heq⟩ := writeFile_eq_ok_iff.mp hwrite
  have hreach := reach_of_reachNew hreach
  refine ⟨⟨heq, fun hroot => hold ?_, ?_, .inl hold⟩, hreach⟩
  · rw [hroot]
    rfl
  · exact (parent_of_reach h hreach).resolve_left hold

theorem locate_clean (t : FileTree) (path : String) : t.locate (Path.clean path) = t.locate path :=
  congrArg List.reverse (Path.place_clean t.home.reverse path)

theorem writes_of_makeDirectory (h : t.WellFormed) (hmake : t.makeDirectory path = .ok t') :
    t.Writes (t.locate path) .directory t' ∧ t.find? (t.locate path) = none := by
  unfold makeDirectory at hmake
  split at hmake
  · cases hmake
  · cases hmake
  · next hreach hnone =>
    cases hmake
    have hparent := parent_of_reach h hreach
    rw [locate_clean, hnone] at hparent
    refine ⟨⟨rfl, fun hroot => ?_, hparent.resolve_left (by simp), .inr rfl⟩, hnone⟩
    rw [hroot] at hnone
    cases hnone

/-- What making directories does: entries stay, and what is new are directories. -/
structure Extends (t t' : FileTree) : Prop where
  wellFormed : t'.WellFormed
  home : t'.home = t.home
  found : ∀ names, t'.find? names = t.find? names ∨
    t.find? names = none ∧ t'.find? names = some .directory

theorem Extends.refl (h : t.WellFormed) : t.Extends t := ⟨h, rfl, fun _ => .inl rfl⟩

theorem Extends.trans {t'' : FileTree} (h : t.Extends t') (h' : t'.Extends t'') :
    t.Extends t'' := by
  refine ⟨h'.wellFormed, h'.home.trans h.home, fun names => ?_⟩
  rcases h'.found names with hsame | ⟨hnone, hnew⟩
  · rcases h.found names with hsame' | ⟨hnone, hnew⟩
    · exact .inl (hsame.trans hsame')
    · exact .inr ⟨hnone, hsame.trans hnew⟩
  · rcases h.found names with hsame' | ⟨_, hold⟩
    · exact .inr ⟨hsame' ▸ hnone, hnew⟩
    · rw [hold] at hnone
      cases hnone

theorem extends_of_makeDirectory (h : t.WellFormed) (hmake : t.makeDirectory path = .ok t') :
    t.Extends t' := by
  obtain ⟨hwrites, hnone⟩ := writes_of_makeDirectory h hmake
  refine ⟨hwrites.wellFormed h, hwrites.home, fun names => ?_⟩
  by_cases heq : names = t.locate path
  · subst heq
    exact .inr ⟨hnone, hwrites.find?_self⟩
  · exact .inl (hwrites.find?_other heq)

theorem extends_makeDirectories (h : t.WellFormed) (path : String) :
    t.Extends (t.makeDirectories path).1 := by
  unfold makeDirectories
  refine List.foldlRecOn (motive := fun (made : FileTree × Option FileError) => t.Extends made.1)
    _ _ (.refl h) ?_
  rintro ⟨made, failure⟩ hmade part _
  simp only
  split
  · exact hmade
  · exact hmade
  · exact hmade
  · split
    · next made' hmake => exact hmade.trans (extends_of_makeDirectory hmade.wellFormed hmake)
    · exact hmade

end FileTree

namespace Draft

theorem map_name_modify (d : Draft) (name : String) {change : BookSheet → BookSheet}
    (h : ∀ s, (change s).name = s.name) :
    (d.modify name change).sheets.map (·.name) = d.sheets.map (·.name) := by
  simp only [modify, List.map_map]
  refine List.map_congr_left fun s _ => ?_
  simp only [Function.comp_apply]
  split
  · exact h s
  · rfl

/-- Writing a sheet adds it, unless there is one, and keeps all names. -/
theorem map_name_writeSheet (d : Draft) (s : Sheet) :
    (d.writeSheet s).sheets.map (·.name) = (d.add s.name).sheets.map (·.name) := by
  have hlayOut := map_name_modify (d.write s.name (s.grid.map (·.map some))) s.name
    (fun sheet => show (sheet.layOut s.widths).name = sheet.name from rfl)
  have hwrite (p : Patch) := map_name_modify (d.add s.name) s.name
    (fun sheet => show (sheet.write p).name = sheet.name from rfl)
  exact hlayOut.trans (hwrite _)

theorem prefix_names_writeSheet (d : Draft) (s : Sheet) :
    d.sheets.map (·.name) <+: (d.writeSheet s).sheets.map (·.name) := by
  rw [map_name_writeSheet, add]
  split
  · exact List.prefix_refl _
  · rw [List.map_append]
    exact List.prefix_append _ _

theorem prefix_names_foldl (d : Draft) (sheets : List Sheet) :
    d.sheets.map (·.name) <+: (sheets.foldl writeSheet d).sheets.map (·.name) := by
  induction sheets generalizing d with
  | nil => exact List.prefix_refl _
  | cons s sheets ih => exact (d.prefix_names_writeSheet s).trans (ih _)

end Draft

namespace Workbook

/-- A book of sheets that begin with a survey can be read as a workbook. -/
theorem isSome_workbook? {s : Sheet} {sheets : List Sheet} {book : Book}
    (hname : s.name = surveyName) (h : Book.ofSheets (s :: sheets) = .ok book) :
    book.workbook?.isSome := by
  unfold Book.ofSheets at h
  split at h
  · cases h
  cases h
  have hfirst : (Draft.empty.writeSheet s).sheets.map (·.name) = [s.name] :=
    Draft.map_name_writeSheet _ _
  have hfront := (Draft.empty.writeSheet s).prefix_names_foldl sheets
  rw [hfirst] at hfront
  have hmem : surveyName ∈ (((s :: sheets).foldl Draft.writeSheet .empty).sheets.map (·.name)) :=
    hfront.subset (by simp [hname])
  obtain ⟨sheet, hsheet, hsheet_name⟩ := List.mem_map.mp hmem
  rw [Book.workbook?, Option.isSome_map, Book.sheet?, List.find?_isSome]
  refine ⟨sheet, List.mem_reverse.mpr hsheet, ?_⟩
  rw [BookSheet.shownName, hsheet_name]
  decide

open FileTree (Writes writes_of_writeFile)

/-- How saving a workbook ends: nothing is written, an empty file is left behind, or a book is
written that can be loaded. -/
inductive Saved (t : FileTree) (path : String) : FileTree × Option SaveError → Prop
  | refused (e : SaveError) : Saved t path (t, some e)
  | emptied {t' : FileTree} (e : SaveError) (h : t.Writes (t.locate path) (.text "") t') :
      Saved t path (t', some e)
  | written {t' : FileTree} {book : Book} {w : Workbook}
      (h : t.Writes (t.locate path) (.book book) t') (hload : load t' path = .ok w) :
      Saved t path (t', none)

theorem saved {t : FileTree} {w : Workbook} (h : t.WellFormed)
    (hname : w.survey.name = surveyName) (path : String) : Saved t path (w.save t path) := by
  unfold save
  split
  · exact .refused _
  split
  · exact .refused _
  next created hcreated =>
  obtain ⟨hwrites, hreach⟩ := writes_of_writeFile h hcreated
  split
  · exact .emptied _ hwrites
  next book hbook =>
  have hagain := hwrites.again (.inl (by simp) : _ ∨ Content.book book = .directory)
  obtain ⟨w', hw'⟩ := Option.isSome_iff_exists.mp (isSome_workbook? hname hbook)
  rw [hwrites.locate]
  refine .written (hwrites.trans hagain) (w := w') ?_
  rw [load, FileTree.openFile, FileTree.stat, hagain.reach (hwrites.reach hreach), hagain.locate,
    hwrites.locate, hagain.find?_self]
  simp only [ofContent, hw']

end Workbook
end SurveyForms
