import Mathlib.Data.List.TakeWhile
import SurveyForms.Project.Commands
import SurveyForms.Proofs.FileTrees

/-! Registries at ordinary paths. Opening a registry looks at its path by the text alone, and
telling whether there is one walks through every directory of it; on a path that leaves no
directory again the two agree. -/
namespace SurveyForms

open SurveyForms.Path (rawNames step)

namespace FileTree

/-- A path that leaves no directory again: each one that it goes through leads to the working
directory or to what the path names. -/
def Straight (t : FileTree) (path : String) : Prop :=
  ∀ n < (rawNames path).length,
    (((rawNames path).take n).foldl (step true) (t.start path)).reverse <+: t.home ∨
      (((rawNames path).take n).foldl (step true) (t.start path)).reverse <+:
        (t.locate path).dropLast

instance (t : FileTree) (path : String) : Decidable (t.Straight path) :=
  inferInstanceAs (Decidable (∀ n < (rawNames path).length, _))

variable {t : FileTree} {path : String}

theorem Straight.of_home {t' : FileTree} (h : t.Straight path) (hhome : t'.home = t.home) :
    t'.Straight path := by
  unfold Straight start locate at *
  rwa [hhome]

/-- All that a straight path goes through are directories, if what it names may stand there. -/
theorem Straight.directory (h : t.Straight path) (hwf : t.WellFormed)
    (hparent : t.find? (t.locate path).dropLast = some .directory) {n : Nat}
    (hn : n < (rawNames path).length) :
    t.find? (((rawNames path).take n).foldl (step true) (t.start path)).reverse =
      some .directory := by
  rcases h n hn with hhome | hplace
  · exact hwf.directory_of_front hwf.home hhome
  · exact hwf.directory_of_front hparent hplace

theorem passable_of_directories {walked names : List String}
    (hshort : ∀ name ∈ names, name.utf8ByteSize ≤ maxName)
    (h : ∀ n < names.length,
      t.find? ((names.take n).foldl (step true) walked).reverse = some .directory) :
    t.passable walked names = .ok () := by
  induction names generalizing walked with
  | nil => rfl
  | cons name rest ih =>
    obtain ⟨hname, hrest⟩ := List.forall_mem_cons.mp hshort
    refine (t.passable_cons _ _ _).mpr ⟨hname, ?_⟩
    by_cases hlast : rest = []
    · exact .inl hlast
    have hpos : 0 < rest.length := List.length_pos_iff.mpr hlast
    refine .inr ⟨h 1 (by simp [hpos]), ih hrest fun n hn => ?_⟩
    exact h (n + 1) (by simp [hn])

end FileTree

namespace Registry

variable {t : FileTree} {registry : String}

/-- A step that is not taken has a short name. -/
private theorem short_of_not_deeper {walked : List String} {name : String}
    (h : ¬ walked.length < (step true walked name).length) :
    name.utf8ByteSize ≤ FileTree.maxName := by
  unfold step at h
  split at h
  · next hname => rcases hname with rfl | rfl <;> decide
  · split at h
    · next hname => rw [hname]; decide
    · simp at h

/-- A way through directories can be followed if its names are short enough. -/
theorem followable_iff {walked names : List String}
    (h : ∀ n < names.length,
      t.find? ((names.take n).foldl (step true) walked).reverse = some .directory) :
    followable t walked names ↔ ∀ name ∈ names, name.utf8ByteSize ≤ FileTree.maxName := by
  induction names generalizing walked with
  | nil => simp [followable]
  | cons name rest ih =>
    have hhere : t.find? walked.reverse = some .directory := h 0 (by simp)
    have hrest := @ih (step true walked name) fun n hn => h (n + 1) (by simp [hn])
    rw [followable, List.forall_mem_cons, ← hrest]
    simp only [hhere, Bool.and_eq_true, Bool.or_eq_true, Bool.not_eq_true', decide_eq_false_iff_not,
      decide_eq_true_eq]
    constructor
    · rintro ⟨hname, hfollow⟩
      exact ⟨hname.elim short_of_not_deeper id, hfollow⟩
    · rintro ⟨hname, hfollow⟩
      exact ⟨.inr hname, hfollow⟩

/-- A path as an address: nothing in it has a meaning of its own. -/
structure Ordinary (registry : String) : Prop where
  noOptions : '?' ∉ registry.toList
  noEnd : '\x00' ∉ registry.toList
  noScheme : Address.scheme.isPrefixOf registry.toList = false
  named : registry ≠ ""
  lasting : registry ≠ ":memory:"

namespace Ordinary

theorem cutFirst_eq {cs : List Char} (h : '?' ∉ cs) : AddressOption.cutFirst '?' cs = (cs, []) := by
  have hall : ∀ c ∈ cs, decide (c ≠ '?') = true :=
    fun c hc => decide_eq_true (ne_of_mem_of_not_mem hc h)
  rw [AddressOption.cutFirst, List.takeWhile_eq_self_iff.mpr hall,
    List.dropWhile_eq_nil_iff.mpr hall]
  rfl

theorem options_eq (h : Ordinary registry) : Address.options registry = .ok [] := by
  have hnone := h.noOptions
  unfold Address.options
  cases hcs : registry.toList with
  | nil => rfl
  | cons c cs =>
    rw [hcs, List.mem_cons, not_or] at hnone
    simp only [cutFirst_eq hnone.2]
    rfl

theorem ofString_eq (h : Ordinary registry) :
    Address.ofString registry = .ok ⟨registry, .create⟩ := by
  have hend : registry.toList.takeWhile (fun c => decide (c ≠ '\x00')) = registry.toList :=
    List.takeWhile_eq_self_iff.mpr fun c hc => decide_eq_true (ne_of_mem_of_not_mem hc h.noEnd)
  have hnone := h.noOptions
  have hscheme := h.noScheme
  have htext := String.ofList_toList (s := registry)
  unfold Address.ofString
  rw [h.options_eq]
  cases hcs : registry.toList with
  | nil => exact absurd (String.toList_eq_nil_iff.mp hcs) h.named
  | cons c cs =>
    rw [hcs] at hend hnone hscheme htext
    have hcut := cutFirst_eq (List.not_mem_of_not_mem_cons hnone)
    simp only [hcut, hscheme, Bool.false_eq_true, if_false, hend, htext]
    rfl

theorem isTransient_eq (h : Ordinary registry) :
    Address.isTransient ⟨registry, .create⟩ = false := by
  simp [Address.isTransient, h.named, h.lasting]

theorem keep_eq (h : Ordinary registry) (t : FileTree) (r : Registry) :
    keep t registry r = t.put (t.locate registry) (.registry r) := by
  simp [keep, h.ofString_eq, keepAt, h.isTransient_eq]

end Ordinary

/-- A path with room for its names, so that a registry can be kept there. -/
structure Short (registry : String) : Prop where
  path : registry.utf8ByteSize ≤ maxPath
  names : ∀ name ∈ rawNames registry, name.utf8ByteSize ≤ FileTree.maxName

theorem Short.admissible (h : Short registry) (hordinary : Ordinary registry) :
    FileTree.admissible registry = .ok () := by
  have hend : registry.toList.contains '\x00' = false := by simpa using hordinary.noEnd
  have hpath : ¬ registry.utf8ByteSize > FileTree.maxPath := by
    have := h.path
    simp only [maxPath, FileTree.maxPath] at this ⊢
    omega
  rw [FileTree.admissible, hend, if_neg (by simp), if_neg hordinary.named, if_neg hpath]

theorem openable_iff (hwf : t.WellFormed) (hstraight : t.Straight registry)
    (hparent : t.find? (t.locate registry).dropLast = some .directory) :
    ¬ (registry.utf8ByteSize > maxPath ∨
      !followable t (t.start registry) (rawNames registry)) ↔ Short registry := by
  have hfollow := followable_iff fun n hn => hstraight.directory hwf hparent hn
  rw [not_or, Nat.not_lt, Bool.not_eq_true', Bool.not_eq_false, hfollow]
  exact ⟨fun h => ⟨h.1, h.2⟩, fun h => ⟨h.path, h.names⟩⟩

/-- A file that is not there is made in a directory, if its path has room. -/
theorem openFile_of_none (hwf : t.WellFormed) (hstraight : t.Straight registry)
    (hnone : t.find? (t.locate registry) = none) :
    (Short registry ∧ t.find? (t.locate registry).dropLast = some .directory ∧
      openFile t ⟨registry, .create⟩ = .ok (.text "")) ∨
    (¬ (Short registry ∧ t.find? (t.locate registry).dropLast = some .directory) ∧
      openFile t ⟨registry, .create⟩ = .error .unopenable) := by
  have hunfold : openFile t ⟨registry, .create⟩ =
      if registry.utf8ByteSize > maxPath ∨
        !followable t (t.start registry) (rawNames registry) then .error .unopenable
      else if t.find? (t.locate registry).dropLast = some .directory then .ok (.text "")
      else .error .unopenable := by
    unfold openFile
    simp only [hnone, true_and]
    rfl
  rw [hunfold]
  by_cases hparent : t.find? (t.locate registry).dropLast = some .directory
  · by_cases hshort : Short registry
    · rw [if_neg ((openable_iff hwf hstraight hparent).mpr hshort), if_pos hparent]
      exact .inl ⟨hshort, hparent, rfl⟩
    · rw [if_pos (by_contra fun h => hshort ((openable_iff hwf hstraight hparent).mp h))]
      exact .inr ⟨fun h => hshort h.1, rfl⟩
  · rw [if_neg hparent, ite_self]
    exact .inr ⟨fun h => hparent h.2, rfl⟩

/-- What is found is opened, unless it is a directory or its path cannot be followed. -/
theorem openFile_of_found {content : Content}
    (hfind : t.find? (t.locate registry) = some content) :
    openFile t ⟨registry, .create⟩ = .error .unopenable ∨
      content ≠ .directory ∧ openFile t ⟨registry, .create⟩ = .ok content := by
  unfold openFile
  extract_lets start
  split
  · exact .inl rfl
  · simp only [hfind]
    cases content with
    | directory => exact .inl rfl
    | text | book | registry => exact .inr ⟨by simp, rfl⟩

theorem openFile_of_registry (hwf : t.WellFormed) (hstraight : t.Straight registry)
    (hshort : Short registry) {r : Registry}
    (hfind : t.find? (t.locate registry) = some (.registry r)) :
    openFile t ⟨registry, .create⟩ = .ok (.registry r) := by
  have hparent := hwf.find?_dropLast hfind
  have hopenable := (openable_iff hwf hstraight hparent).mpr hshort
  unfold openFile
  simp only [hfind]
  exact if_neg hopenable

/-- Builds as records, numbered from 1 on. -/
def numbered (builds : List Build) : List BuildRecord :=
  (builds.zipIdx 1).map fun (b, id) => ⟨id, b, (CivilTime.ofUnix b.compiledAt).stamp⟩

/-- A registry that is up to date and holds these builds. -/
def ofBuilds (builds : List Build) : Registry :=
  ⟨.row migrations.length, some ⟨true, true, numbered builds⟩⟩

theorem upToDate_empty : upToDate empty = (ofBuilds [], .ok (ofBuilds [])) := rfl

theorem upToDate_ofBuilds (builds : List Build) :
    upToDate (ofBuilds builds) = (ofBuilds builds, .ok (ofBuilds builds)) := rfl

theorem numbered_concat (builds : List Build) (b : Build) : numbered (builds ++ [b]) =
    numbered builds ++ [⟨builds.length + 1, b, (CivilTime.ofUnix b.compiledAt).stamp⟩] := by
  rw [numbered, List.zipIdx_append, List.map_append, Nat.add_comm 1]
  rfl

/-- A build gets the next number. -/
theorem record_ofBuilds (builds : List Build) (b : Build) :
    (ofBuilds builds).record b = .ok (ofBuilds (builds ++ [b]), builds.length + 1) := by
  have hlength : (numbered builds).length = builds.length := by simp [numbered]
  have hrecord : (ofBuilds builds).record b = .ok (⟨.row migrations.length, some ⟨true, true,
      numbered builds ++ [⟨(numbered builds).length + 1, b,
        (CivilTime.ofUnix b.compiledAt).stamp⟩]⟩⟩, (numbered builds).length + 1) := rfl
  rw [hrecord, hlength, ofBuilds, numbered_concat]

/-- At the path of a registry there is nothing and no build to be held, or a registry with the
builds to be held. -/
inductive Holds (t : FileTree) (registry : String) : List Build → Prop
  | nothing (h : t.find? (t.locate registry) = none) : Holds t registry []
  | registry {builds : List Build} (hshort : Short registry)
      (h : t.find? (t.locate registry) = some (.registry (ofBuilds builds))) :
      Holds t registry builds

/-- The files of a project whose registry holds these builds. -/
structure Kept (t : FileTree) (registry : String) (builds : List Build) : Prop where
  wellFormed : t.WellFormed
  straight : t.Straight registry
  holds : Holds t registry builds

namespace Kept

variable {builds : List Build}

/-- Nothing but what stands at the path matters. -/
theorem of_find? {t' : FileTree} (h : Kept t registry builds) (hwf : t'.WellFormed)
    (hhome : t'.home = t.home)
    (hfind : t'.find? (t.locate registry) = t.find? (t.locate registry)) :
    Kept t' registry builds := by
  have hlocate : t'.locate registry = t.locate registry := by
    unfold FileTree.locate
    rw [hhome]
  refine ⟨hwf, h.straight.of_home hhome, ?_⟩
  cases h.holds with
  | nothing hnone => exact .nothing (by rw [hlocate, hfind, hnone])
  | registry hshort hregistry => exact .registry hshort (by rw [hlocate, hfind, hregistry])

theorem writes (h : Kept t registry builds)
    (hparent : t.find? (t.locate registry).dropLast = some .directory) (r : Registry) :
    t.Writes (t.locate registry) (.registry r) (t.put (t.locate registry) (.registry r)) := by
  have hold : t.find? (t.locate registry) ≠ some .directory := by
    intro hdirectory
    cases h.holds with
    | nothing hnone => rw [hnone] at hdirectory; cases hdirectory
    | registry _ hregistry => rw [hregistry] at hdirectory; cases hdirectory
  exact ⟨rfl, fun hroot => hold (by rw [hroot]; rfl), hparent, .inl hold⟩

theorem put_registry (h : Kept t registry builds) (hshort : Short registry)
    (hparent : t.find? (t.locate registry).dropLast = some .directory) (bs : List Build) :
    Kept (t.put (t.locate registry) (.registry (ofBuilds bs))) registry bs := by
  have hwrites := h.writes hparent (ofBuilds bs)
  exact ⟨hwrites.wellFormed h.wellFormed, h.straight.of_home hwrites.home,
    .registry hshort hwrites.find?_self⟩

end Kept

variable {builds : List Build}

/-- How a registry is opened: it is not there and cannot be made, or it is there in the end, with
the builds to be held. Where it can be made, its absence is noticed. -/
inductive Opened (t : FileTree) (registry : String) (builds : List Build) :
    FileTree × Except OpenError Registry → Prop
  | refused (hnone : t.find? (t.locate registry) = none) :
      Opened t registry builds (t, .error .unopenable)
  | opened {t' : FileTree} (hkept : Kept t' registry builds) (hshort : Short registry)
      (hthere : t'.find? (t'.locate registry) = some (.registry (ofBuilds builds)))
      (habsent : t.find? (t.locate registry) = none → Project.isAbsent t registry) :
      Opened t registry builds (t', .ok (ofBuilds builds))

theorem Opened.kept {t' : FileTree} {r : Registry} (h : Opened t registry builds (t', .ok r)) :
    Kept t' registry builds := by
  cases h with
  | opened hkept => exact hkept

/-- How an ordinary path is opened follows from what its file holds. -/
theorem Ordinary.openAt_eq (h : Ordinary registry) (t : FileTree) : openAt t registry =
    match openFile t ⟨registry, .create⟩ with
    | .error e => (t, .error e)
    | .ok content =>
      match ofContent ⟨registry, .create⟩ content with
      | .error e => (t.put (t.locate registry) content, .error e)
      | .ok found => (t.put (t.locate registry) (.registry (upToDate found).1), (upToDate found).2)
    := by
  have hlate : Address.lateFault? [] = none := by decide
  unfold openAt
  rw [h.ofString_eq, h.options_eq]
  simp only [openAddress, h.isTransient_eq, Bool.false_eq_true, if_false, hlate, keepAt]
  cases openFile t ⟨registry, .create⟩ with
  | error e => rfl
  | ok content =>
    simp only
    cases ofContent ⟨registry, .create⟩ content with
    | error e => rfl
    | ok found => exact congrArg (·, (upToDate found).2) (t.put_put _ _ _)

namespace Kept

theorem reach (h : Kept t registry builds) (hordinary : Ordinary registry)
    (hshort : Short registry)
    (hparent : t.find? (t.locate registry).dropLast = some .directory) :
    t.reach registry = .ok () := by
  unfold FileTree.reach
  rw [hshort.admissible hordinary]
  exact FileTree.passable_of_directories hshort.names fun n hn =>
    h.straight.directory h.wellFormed hparent hn

theorem isAbsent_of_none (h : Kept t registry builds) (hordinary : Ordinary registry)
    (hshort : Short registry) (hparent : t.find? (t.locate registry).dropLast = some .directory)
    (hnone : t.find? (t.locate registry) = none) : Project.isAbsent t registry := by
  rw [Project.isAbsent, FileTree.stat, h.reach hordinary hshort hparent, hnone]

theorem isAbsent_of_registry (h : Kept t registry builds) (hordinary : Ordinary registry)
    (hshort : Short registry) {content : Content}
    (hfind : t.find? (t.locate registry) = some content) :
    Project.isAbsent t registry = false := by
  have hparent := h.wellFormed.find?_dropLast hfind
  rw [Project.isAbsent, FileTree.stat, h.reach hordinary hshort hparent, hfind]

/-- Opening a registry changes none of its builds. -/
theorem opened (h : Kept t registry builds) (hordinary : Ordinary registry) :
    Opened t registry builds (openAt t registry) := by
  cases h.holds with
  | nothing hnone =>
    rcases openFile_of_none h.wellFormed h.straight hnone with
      ⟨hshort, hparent, hopen⟩ | ⟨_, hopen⟩
    · rw [hordinary.openAt_eq, hopen]
      change Opened t registry [] (t.put _ (.registry (upToDate empty).1), (upToDate empty).2)
      rw [upToDate_empty]
      have hwrites := h.writes hparent (ofBuilds [])
      exact .opened (h.put_registry hshort hparent []) hshort hwrites.find?_self
        (h.isAbsent_of_none hordinary hshort hparent)
    · rw [hordinary.openAt_eq, hopen]
      exact .refused hnone
  | registry hshort hfind =>
    have hopen := openFile_of_registry h.wellFormed h.straight hshort hfind
    have hparent := h.wellFormed.find?_dropLast hfind
    rw [hordinary.openAt_eq, hopen]
    change Opened t registry builds
      (t.put _ (.registry (upToDate (ofBuilds builds)).1), (upToDate (ofBuilds builds)).2)
    rw [upToDate_ofBuilds]
    have hwrites := h.writes hparent (ofBuilds builds)
    refine .opened (h.put_registry hshort hparent builds) hshort hwrites.find?_self fun hnone => ?_
    rw [hfind] at hnone
    cases hnone

end Kept

end Registry
end SurveyForms
