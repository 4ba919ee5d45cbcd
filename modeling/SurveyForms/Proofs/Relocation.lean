import Mathlib.Data.List.Find
import SurveyForms.Proofs.RenamedForms

/-! Files that are moved from below one directory to below another. Main result: what is compiled
from them does not depend on the directory, as long as no command leads out of it. -/
namespace SurveyForms

namespace Path

def under (dir name : String) : String := (if dir = "/" then "" else dir) ++ "/" ++ name

/-- A path as it is seen from a directory that it is under. -/
def seenFrom (dir p : String) : String := String.ofList (p.toList.drop (under dir "").length)

def moved (source target p : String) : String := under target (seenFrom source p)

/-- A cleaned absolute path. -/
structure IsDirectory (dir : String) : Prop where
  absolute : isAbsolute dir
  clean : clean dir = dir

/-- A relative path that leads below the directory it is seen from, and never out of it. -/
structure StaysInside (x : String) : Prop where
  relative : isAbsolute x = false
  below : (ofString x).names ≠ []
  inside : ".." ∉ (ofString x).names

/-- A path below a directory, as it may be written. -/
def IsUnder (dir p : String) : Prop := ∃ x, StaysInside x ∧ p = under dir x

instance (dir : String) : Decidable (IsDirectory dir) :=
  decidable_of_iff (isAbsolute dir ∧ clean dir = dir) ⟨fun h => ⟨h.1, h.2⟩, fun h => ⟨h.1, h.2⟩⟩

instance (x : String) : Decidable (StaysInside x) :=
  decidable_of_iff (isAbsolute x = false ∧ (ofString x).names ≠ [] ∧ ".." ∉ (ofString x).names)
    ⟨fun h => ⟨h.1, h.2.1, h.2.2⟩, fun h => ⟨h.1, h.2, h.3⟩⟩

theorem seenFrom_under (dir x : String) : seenFrom dir (under dir x) = x := by
  have htext : (under dir x).toList = (under dir "").toList ++ x.toList := by simp [under]
  rw [seenFrom, htext, ← String.length_toList, List.drop_left, String.ofList_toList]

theorem moved_under (source target x : String) :
    moved source target (under source x) = under target x := by
  rw [moved, seenFrom_under]

theorem plain_of_mem_place_root {p : String} : ∀ name ∈ place [] p, IsPlain name :=
  plain_of_mem_place (by simp) p

namespace StaysInside

variable {x : String} (hx : StaysInside x)

include hx

theorem plain : ∀ name ∈ (ofString x).names, IsPlain name := by
  intro name hname
  obtain ⟨hslash, hempty, hdot⟩ := mem_names_ofString hname
  exact ⟨hempty, hdot, fun hup => hx.inside (hup ▸ hname), hslash⟩

/-- Such a path leads down from anywhere. -/
theorem walk_eq (start : List String) : walk start x = (ofString x).names.reverse ++ start := by
  have hwalk : walk start x = (ofString x).names.foldl (step true) start := by
    have h := foldl_foldl_step (.inl rfl : false = false ∨ start = []) (rawNames x) [] (by simp)
    simp only [ofString, hx.relative]
    exact h.symm
  rw [hwalk, ← foldl_step_plain (fun name h => hx.plain name (List.mem_reverse.mp h)),
    List.reverse_reverse]

theorem clean_eq : clean x = String.intercalate "/" (ofString x).names := by
  have hrooted : (ofString x).rooted = false := hx.relative
  have hnames : (ofString x).names.isEmpty = false := by simpa using hx.below
  simp only [clean, toString, hrooted, hnames, Bool.false_eq_true, if_false]

theorem names_clean : (ofString (Path.clean x)).names = (ofString x).names := by
  have hraw : rawNames (Path.clean x) = (ofString x).names := by
    rw [hx.clean_eq]
    exact rawNames_intercalate hx.below fun name h => (hx.plain name h).no_slash
  have hplain := foldl_step_plain (fun name h => hx.plain name (List.mem_reverse.mp h)) false []
  rw [List.reverse_reverse, List.append_nil] at hplain
  rw [ofString]
  simp only [isAbsolute_clean, hx.relative, hraw, hplain, List.reverse_reverse]

theorem cleaned : StaysInside (Path.clean x) := by
  refine ⟨?_, ?_, ?_⟩
  · rw [isAbsolute_clean, hx.relative]
  · rw [hx.names_clean]
    exact hx.below
  · rw [hx.names_clean]
    exact hx.inside

end StaysInside

/-- The text of a path in a directory is that of the names of both. -/
private theorem under_toString {outer names : List String} (houter : ∀ name ∈ outer, name ≠ "")
    (hnames : names ≠ []) : under (toString ⟨true, outer⟩) (String.intercalate "/" names) =
      toString ⟨true, outer ++ names⟩ := by
  cases outer with
  | nil => rfl
  | cons first outer =>
    have hne := intercalate_ne_empty (houter first List.mem_cons_self) outer
    have hroot : "/" ++ String.intercalate "/" (first :: outer) ≠ "/" := by
      intro h
      exact hne (by simpa using h)
    simp only [under, toString, if_true, if_neg hroot]
    rw [String.intercalate_append_of_ne_nil (List.cons_ne_nil _ _) hnames]
    simp only [String.append_assoc]

/-- The directory of a path as it is written. -/
private def front (p : String) : String :=
  String.ofList (p.toList.reverse.dropWhile (· ≠ '/')).reverse

private theorem front_under (dir x : String) : front (under dir x) = under dir (front x) := by
  have htext (y : String) : (under dir y).toList = (if dir = "/" then "" else dir).toList ++
      '/' :: y.toList := by simp [under]
  have hslash : ('/' :: (if dir = "/" then "" else dir).toList.reverse).dropWhile (· ≠ '/') =
      '/' :: (if dir = "/" then "" else dir).toList.reverse := by simp
  apply String.toList_injective
  rw [front, htext, htext, front, String.toList_ofList, String.toList_ofList, List.reverse_append,
    List.reverse_cons, List.append_assoc, List.singleton_append, List.dropWhile_append, hslash]
  split
  · next hempty =>
    rw [List.isEmpty_iff.mp hempty]
    simp
  · simp

private theorem isAbsolute_front {x : String} (h : isAbsolute x = false) :
    isAbsolute (front x) = false := by
  have hfront : (front x).toList <+: x.toList := by
    rw [front, String.toList_ofList, ← List.reverse_suffix, List.reverse_reverse]
    exact List.dropWhile_suffix _
  obtain ⟨rest, hrest⟩ := hfront
  cases hchars : (front x).toList with
  | nil => simp [isAbsolute, hchars]
  | cons c cs =>
    rw [isAbsolute, ← hrest, hchars] at h
    rw [isAbsolute, hchars]
    exact h

private theorem isAbsolute_resolve {dir t : String} (hne : dir ≠ "") (hdir : isAbsolute dir = false)
    (ht : isAbsolute t = false) : isAbsolute (resolve dir t) = false := by
  unfold resolve join
  rw [ht]
  split
  · contradiction
  split
  · rwa [isAbsolute_clean]
  · rwa [isAbsolute_clean, String.append_assoc, isAbsolute_append hne]

namespace IsDirectory

variable {dir : String} (hdir : IsDirectory dir)

include hdir

private theorem place_under (x : String) :
    isAbsolute (under dir x) ∧ place [] (under dir x) = walk (place [] dir) x := by
  have habsolute := hdir.absolute
  unfold under
  split
  · next hroot =>
    subst hroot
    rw [String.empty_append]
    refine ⟨isAbsolute_slash x, ?_⟩
    rw [place, isAbsolute_slash, if_pos rfl, walk_slash]
    rfl
  · have hne : dir ≠ "" := by
      rintro rfl
      cases habsolute
    have happend : isAbsolute (dir ++ "/" ++ x) := by
      rwa [String.append_assoc, isAbsolute_append hne]
    refine ⟨happend, ?_⟩
    rw [place, place, happend, habsolute, if_pos rfl, walk_append]

theorem isAbsolute_under (x : String) : isAbsolute (under dir x) := (hdir.place_under x).1

/-- A path inside the directory leads below the place of the directory. -/
theorem place_of_inside {x : String} (hx : StaysInside x) :
    place [] (under dir x) = (ofString x).names.reverse ++ place [] dir := by
  rw [(hdir.place_under x).2, hx.walk_eq]

theorem clean_under {x : String} (hx : StaysInside x) :
    Path.clean (under dir x) = under dir (Path.clean x) := by
  have htext : dir = toString ⟨true, (place [] dir).reverse⟩ := by
    rw [← clean_of_isAbsolute hdir.absolute, hdir.clean]
  have hcleaned : under dir (Path.clean x) =
      toString ⟨true, (place [] dir).reverse ++ (ofString x).names⟩ := by
    rw [hx.clean_eq]
    nth_rewrite 1 [htext]
    exact under_toString (fun name h =>
      (plain_of_mem_place_root name (List.mem_reverse.mp h)).ne_empty) hx.below
  rw [hcleaned, clean_of_isAbsolute (hdir.isAbsolute_under x) [], hdir.place_of_inside hx,
    List.reverse_append, List.reverse_reverse]

/-- Names are resolved in a file under the directory as they are resolved in the file seen from the
directory. -/
theorem resolve_under {x t : String} (hx : isAbsolute x = false) (ht : isAbsolute t = false) :
    resolve (directory (under dir x)) t =
      Path.clean (under dir (resolve (directory x) t)) := by
  have hfront : ∀ p, directory p = Path.clean (front p) := fun _ => rfl
  have hne : ∀ p, directory p ≠ "" := fun _ => clean_ne_empty _
  have hrelative : isAbsolute (resolve (directory x) t) = false := by
    refine isAbsolute_resolve (hne x) ?_ ht
    rw [hfront, isAbsolute_clean]
    exact isAbsolute_front hx
  have hinner : ∀ y, isAbsolute y = false → walk (place [] dir) y = place (place [] dir) y := by
    intro y hy
    simp only [place, hy, Bool.false_eq_true, if_false]
  have habsolute : isAbsolute (directory (under dir x)) := by
    rw [hfront, isAbsolute_clean, front_under]
    exact hdir.isAbsolute_under _
  have hplace : place [] (resolve (directory (under dir x)) t) =
      place [] (under dir (resolve (directory x) t)) :=
    calc place [] (resolve (directory (under dir x)) t)
      _ = place (place [] (directory (under dir x))) t := place_resolve (hne _) [] t
      _ = place (place (place [] dir) (front x)) t := by
        rw [hfront, place_clean, front_under, (hdir.place_under _).2,
          hinner _ (isAbsolute_front hx)]
      _ = place (place [] dir) (resolve (directory x) t) := by
        rw [place_resolve (hne x), hfront, place_clean]
      _ = place [] (under dir (resolve (directory x) t)) := by
        rw [(hdir.place_under _).2, hinner _ hrelative]
  rw [resolve_of_isAbsolute habsolute [], hplace,
    clean_of_isAbsolute (hdir.isAbsolute_under _) []]

end IsDirectory

end Path

/-- Absolute paths have one location if they lead to one place. -/
private theorem Location.ofPath_eq_iff {p q : String} (hp : Path.isAbsolute p)
    (hq : Path.isAbsolute q) :
    Location.ofPath p = Location.ofPath q ↔ Path.place [] p = Path.place [] q := by
  constructor
  · intro h
    have hcanonical : (FileSet.ofList []).sources.canonical p =
        (FileSet.ofList []).sources.canonical q := congrArg Location.canonical h
    have hplace := congrArg (Path.place []) hcanonical
    rwa [(FileSet.lexical _).place_canonical, (FileSet.lexical _).place_canonical] at hplace
  · intro h
    have hclean : Path.clean p = Path.clean q := by
      rw [Path.clean_of_isAbsolute hp [], Path.clean_of_isAbsolute hq [], h]
    rw [ofPath, ofPath, hclean]

private theorem exists_take_eq_iff {names outer : List α} :
    (∃ n < names.length, names.take n = outer) ↔ outer <+: names ∧ outer ≠ names := by
  constructor
  · rintro ⟨n, hn, rfl⟩
    refine ⟨List.take_prefix n names, fun h => ?_⟩
    have hlength := congrArg List.length h
    rw [List.length_take] at hlength
    omega
  · rintro ⟨⟨rest, rfl⟩, hne⟩
    have hrest : rest ≠ [] := by
      rintro rfl
      exact hne (List.append_nil outer).symm
    have hlength := List.length_pos_of_ne_nil hrest
    refine ⟨outer.length, ?_, List.take_left⟩
    rw [List.length_append]
    omega

namespace FileSet

def under (dir : String) (files : List (String × String)) : FileSet :=
  ofList (files.map fun file => (Path.under dir file.1, file.2))

/-- What is found at some names below the directory that the files are placed under: the text of
the last such file, or else the empty text of a directory. -/
def lookup (files : List (String × String)) (names : List String) : Option String :=
  ((files.reverse.find? fun file => (Path.ofString file.1).names = names).map (·.2)).or
    (if ∃ file ∈ files, names <+: (Path.ofString file.1).names ∧
      names ≠ (Path.ofString file.1).names then some "" else none)

section

variable {dir x y : String} (hdir : Path.IsDirectory dir)

include hdir

private theorem location_eq_iff (hx : Path.StaysInside x) (hy : Path.StaysInside y) :
    Location.ofPath (Path.under dir x) = Location.ofPath (Path.under dir y) ↔
      (Path.ofString x).names = (Path.ofString y).names := by
  rw [Location.ofPath_eq_iff (hdir.isAbsolute_under x) (hdir.isAbsolute_under y),
    hdir.place_of_inside hx, hdir.place_of_inside hy, List.append_left_inj, List.reverse_inj]

private theorem names_under (hx : Path.StaysInside x) :
    Path.ofString (Path.under dir x) =
      ⟨true, (Path.place [] dir).reverse ++ (Path.ofString x).names⟩ := by
  have habsolute := hdir.isAbsolute_under x
  have hplace := hdir.place_of_inside hx
  rw [Path.place, habsolute, if_pos rfl, Path.walk] at hplace
  rw [Path.ofString]
  simp only [habsolute, hplace, List.reverse_append, List.reverse_reverse]

/-- A path inside the directory names a directory above a file if its names lead to the file. -/
private theorem exists_ancestor_iff (hx : Path.StaysInside x) (hy : Path.StaysInside y) :
    (∃ d ∈ ancestors (Path.under dir x), Location.ofPath d = Location.ofPath (Path.under dir y)) ↔
      (Path.ofString y).names <+: (Path.ofString x).names ∧
        (Path.ofString y).names ≠ (Path.ofString x).names := by
  generalize hnames : (Path.place [] dir).reverse ++ (Path.ofString x).names = names
  have hplain : ∀ name ∈ names, Path.IsPlain name := by
    intro name hname
    rw [← hnames, List.mem_append, List.mem_reverse] at hname
    exact hname.elim (Path.plain_of_mem_place_root name) (hx.plain name)
  have hat : ∀ n, Location.ofPath (Path.toString ⟨true, names.take n⟩) =
        Location.ofPath (Path.under dir y) ↔
      names.take n = (Path.place [] dir).reverse ++ (Path.ofString y).names := by
    intro n
    have htaken : ∀ name ∈ (names.take n).reverse, Path.IsPlain name := fun name hname =>
      hplain name (List.mem_of_mem_take (List.mem_reverse.mp hname))
    have htake := Path.place_toString htaken []
    rw [List.reverse_reverse] at htake
    have habsolute : Path.isAbsolute (Path.toString ⟨true, names.take n⟩) :=
      Path.isAbsolute_slash _
    rw [Location.ofPath_eq_iff habsolute (hdir.isAbsolute_under y), htake,
      hdir.place_of_inside hy, List.reverse_eq_iff, List.reverse_append, List.reverse_reverse]
  have hancestor : (∃ d ∈ ancestors (Path.under dir x),
        Location.ofPath d = Location.ofPath (Path.under dir y)) ↔
      ∃ n < names.length,
        names.take n = (Path.place [] dir).reverse ++ (Path.ofString y).names := by
    simp only [ancestors, names_under hdir hx, hnames, List.mem_map, List.mem_reverse,
      List.mem_range, exists_exists_and_eq_and, hat]
  rw [hancestor, exists_take_eq_iff, ← hnames, List.prefix_append_right_inj, ne_eq,
    List.append_right_inj]

end

private theorem find?_directories (directories : List Location) (a : Location) :
    ((directories.map fun b => (b, "")).find? (·.1 = a)).map (·.2) =
      if a ∈ directories then some "" else none := by
  rw [List.find?_map, Option.map_map]
  cases hfind : directories.find?
      ((fun e : Location × String => decide (e.1 = a)) ∘ fun b => (b, "")) with
  | none =>
    have hnone : a ∉ directories := by
      intro ha
      simpa using List.find?_eq_none.mp hfind a ha
    rw [if_neg hnone]
    rfl
  | some b =>
    have hb : b = a := by simpa using List.find?_some hfind
    rw [if_pos (hb ▸ List.mem_of_find?_eq_some hfind)]
    rfl

/-- What is found in a set of files. -/
theorem find?_ofList (files : List (String × String)) {a : Location}
    (ha : Location.ofPath "/" ≠ a) :
    (ofList files).find? a =
      ((files.reverse.find? fun file => Location.ofPath file.1 = a).map (·.2)).or
        (if ∃ file ∈ files, ∃ d ∈ ancestors file.1, Location.ofPath d = a then some ""
          else none) := by
  have hfiles : ofList files = ⟨files.reverse.map (fun file => (Location.ofPath file.1, file.2)) ++
      files.flatMap (fun file => (ancestors file.1).map fun dir => (Location.ofPath dir, "")) ++
      [(Location.ofPath "/", "")]⟩ := rfl
  have hdirectories : (files.flatMap fun file =>
        (ancestors file.1).map fun dir => (Location.ofPath dir, "")) =
      (files.flatMap fun file => (ancestors file.1).map Location.ofPath).map fun b => (b, "") := by
    rw [List.map_flatMap]
    simp only [List.map_map]
    rfl
  have hroot : [(Location.ofPath "/", "")].find? (·.1 = a) = none := by simp [ha]
  rw [hfiles, find?, List.find?_append, List.find?_append, hroot, Option.or_none, Option.map_or,
    hdirectories, find?_directories, List.find?_map, Option.map_map]
  simp only [List.mem_flatMap, List.mem_map]
  rfl

/-- What is found below a directory depends on its names alone. -/
theorem find?_under {dir : String} (hdir : Path.IsDirectory dir) {files : List (String × String)}
    (hfiles : ∀ file ∈ files, Path.StaysInside file.1) {y : String} (hy : Path.StaysInside y) :
    (under dir files).find? (Location.ofPath (Path.under dir y)) =
      lookup files (Path.ofString y).names := by
  have hroot : Location.ofPath "/" ≠ Location.ofPath (Path.under dir y) := by
    intro h
    have hplace := (Location.ofPath_eq_iff (by decide) (hdir.isAbsolute_under y)).mp h
    rw [hdir.place_of_inside hy] at hplace
    exact hy.below (by simpa using (List.append_eq_nil_iff.mp hplace.symm).1)
  have hfile : files.reverse.find? (fun file =>
        Location.ofPath (Path.under dir file.1) = Location.ofPath (Path.under dir y)) =
      files.reverse.find? fun file => (Path.ofString file.1).names = (Path.ofString y).names := by
    apply List.find?_congr
    intro file hfile
    exact decide_eq_decide.mpr (location_eq_iff hdir (hfiles file (List.mem_reverse.mp hfile)) hy)
  have hdirectory : (∃ file ∈ files, ∃ d ∈ ancestors (Path.under dir file.1),
        Location.ofPath d = Location.ofPath (Path.under dir y)) ↔
      ∃ file ∈ files, (Path.ofString y).names <+: (Path.ofString file.1).names ∧
        (Path.ofString y).names ≠ (Path.ofString file.1).names := by
    refine exists_congr fun file => and_congr_right fun hfile => ?_
    exact exists_ancestor_iff hdir (hfiles file hfile) hy
  rw [under, find?_ofList _ hroot, ← List.map_reverse, List.find?_map, Option.map_map, lookup]
  simp only [List.mem_map, exists_exists_and_eq_and, hdirectory]
  exact congrArg (fun found => Option.or (Option.map (·.2) found) _) hfile

theorem canonical_under {dir : String} (hdir : Path.IsDirectory dir)
    (files : List (String × String)) {x : String} (hx : Path.StaysInside x) :
    (under dir files).sources.canonical (Path.under dir x) = Path.under dir (Path.clean x) := by
  rw [(FileSet.lexical _).canonical, ← Path.clean_of_isAbsolute (hdir.isAbsolute_under x),
    hdir.clean_under hx]

theorem text_under {dir : String} (hdir : Path.IsDirectory dir) {files : List (String × String)}
    (hfiles : ∀ file ∈ files, Path.StaysInside file.1) {x : String} (hx : Path.StaysInside x) :
    (under dir files).sources.text (Path.under dir x) =
      match lookup files (Path.ofString x).names with
      | some text => .ok (String.ofList (Text.unixBreaks text.toList))
      | none => .error (.unknownFile (Path.under dir (Path.clean x))) := by
  have hnormal : (Location.ofPath (Path.under dir x)).normal = Path.under dir (Path.clean x) := by
    have habsolute : Path.isAbsolute (Path.clean (Path.under dir x)) := by
      rw [Path.isAbsolute_clean]
      exact hdir.isAbsolute_under x
    rw [← hdir.clean_under hx, Location.ofPath]
    refine if_neg fun h => ?_
    rcases h with h | h <;> rw [h] at habsolute <;> cases habsolute
  show ((under dir files).read (Path.under dir x)).map _ = _
  rw [read, find?_under hdir hfiles hx, hnormal]
  cases lookup files (Path.ofString x).names <;> rfl

/-- The files placed under another directory are the same files renamed. -/
theorem under_renames {source target : String} (hsource : Path.IsDirectory source)
    (htarget : Path.IsDirectory target) {files : List (String × String)}
    (hfiles : ∀ file ∈ files, Path.StaysInside file.1) :
    (under source files).sources.Renames (under target files).sources (Path.moved source target)
      (Path.IsUnder source) := by
  refine ⟨?_, ?_, ?_⟩
  · rintro _ ⟨x, hx, rfl⟩
    rw [Path.moved_under, canonical_under htarget files hx, canonical_under hsource files hx,
      Path.moved_under]
  · rintro _ _ ⟨x, hx, rfl⟩ ⟨y, hy, rfl⟩ h
    rw [canonical_under hsource files hx, canonical_under hsource files hy, Path.moved_under,
      Path.moved_under] at h
    have hname := congrArg (Path.seenFrom target) h
    rw [Path.seenFrom_under, Path.seenFrom_under] at hname
    rw [canonical_under hsource files hx, canonical_under hsource files hy, hname]
  · rintro _ ⟨x, hx, rfl⟩
    rw [Path.moved_under, text_under htarget hfiles hx, text_under hsource hfiles hx]
    cases lookup files (Path.ofString x).names with
    | some text => rfl
    | none => simp only [Except.mapError, FileError.renamed, Path.moved_under]

end FileSet

/-- A relative target that leads from the file of the command to a path below the directory, and
never out of the directory. -/
structure Command.StaysUnder (dir : String) (c : Command) : Prop where
  relative : Path.isAbsolute c.first = false
  inside : Path.StaysInside
    (Path.resolve (Path.directory (Path.seenFrom dir c.pos.file)) c.first)

instance (dir : String) (c : Command) : Decidable (c.StaysUnder dir) :=
  decidable_of_iff (Path.isAbsolute c.first = false ∧ Path.StaysInside
    (Path.resolve (Path.directory (Path.seenFrom dir c.pos.file)) c.first))
    ⟨fun h => ⟨h.1, h.2⟩, fun h => ⟨h.1, h.2⟩⟩

theorem Command.StaysUnder.renames {source target : String} (hsource : Path.IsDirectory source)
    (htarget : Path.IsDirectory target) {c : Command} (hc : c.StaysUnder source)
    (hfile : Path.IsUnder source c.pos.file) :
    c.Renames (Path.moved source target) (Path.IsUnder source) := by
  obtain ⟨x, hx, hpath⟩ := id hfile
  have hinside := hc.inside
  rw [hpath, Path.seenFrom_under] at hinside
  have htarget_eq : c.target =
      Path.under source (Path.clean (Path.resolve (Path.directory x) c.first)) := by
    rw [Command.target, hpath, hsource.resolve_under hx.relative hc.relative,
      hsource.clean_under hinside]
  refine ⟨hfile, ⟨_, hinside.cleaned, htarget_eq⟩, ?_⟩
  rw [htarget_eq, Path.moved_under]
  show Path.resolve (Path.directory (Path.moved source target c.pos.file)) c.first = _
  rw [hpath, Path.moved_under, htarget.resolve_under hx.relative hc.relative,
    htarget.clean_under hinside]

namespace Session

/-- The command that a session does next, if that names a file. -/
def asked? (a : Session) : Option Command :=
  match a.agenda with
  | .command d c :: _ =>
    match c.request d with
    | .ok (some _) => some c
    | _ => none
  | _ => none

/-- Whether a session stops within `n` steps and meets only accepted commands. -/
def meetsOnly (s : Sources) (accept : Command → Bool) : Nat → Session → Bool
  | 0, _ => false
  | n + 1, a => a.asked?.all accept &&
    match a.next s with
    | some (.ok b) => b.meetsOnly s accept n
    | _ => true

theorem accept_of_meetsOnly {s : Sources} {accept : Command → Bool} {n : Nat} {a : Session}
    (h : a.meetsOnly s accept n) {c : Command} (hc : Met s a c) : accept c := by
  obtain ⟨d, chain, rest, r, hreach, hrequest⟩ := hc
  induction n generalizing a with
  | zero => cases h
  | succ n ih =>
    obtain ⟨hasked, hnext⟩ := Bool.and_eq_true_iff.mp h
    rcases hreach.cases_head with rfl | ⟨b, hstep, hreach⟩
    · simpa [asked?, hrequest] using hasked
    · rw [show a.next s = some (.ok b) from hstep] at hnext
      exact ih hnext hreach

end Session

/-- Whether only accepted commands are met while a file is compiled, for at most `n` steps. -/
def Sources.meetsOnly (s : Sources) (accept : Command → Bool) (n : Nat) (path : String) : Bool :=
  match s.text path with
  | .error _ => true
  | .ok src =>
    match Survey.ofSource path src with
    | .error _ => true
    | .ok survey => (Session.start s path survey).meetsOnly s accept n

theorem Sources.accept_of_meetsOnly {s : Sources} {accept : Command → Bool} {n : Nat}
    {path : String} (h : s.meetsOnly accept n path) {c : Command} (hc : s.Meets path c) :
    accept c := by
  obtain ⟨src, survey, htext, hsurvey, hmet⟩ := hc
  simp only [meetsOnly, htext, hsurvey] at h
  exact Session.accept_of_meetsOnly h hmet

namespace Form

/-- Compiling does not depend on the directory that all files are placed under, as long as no
command leads out of it. -/
theorem moved_files_compile_alike {source target : String} (hsource : Path.IsDirectory source)
    (htarget : Path.IsDirectory target) {files : List (String × String)}
    (hfiles : ∀ file ∈ files, Path.StaysInside file.1) {name : String}
    (hname : Path.StaysInside name)
    (hstays : ∀ c, (FileSet.under source files).sources.Meets (Path.under source name) c →
      c.StaysUnder source) (now : Moment) :
    let here := Form.ofFile (FileSet.under source files).sources now (Path.under source name)
    let there := Form.ofFile (FileSet.under target files).sources now (Path.under target name)
    (∀ form, here.result = .ok form ↔ there.result = .ok form) ∧
      ∀ e, here.result = .error e → ∃ e', there.result = .error e' ∧
        e.Corresponds (fun p q => Path.IsUnder source p ∧ q = Path.moved source target p) e' := by
  intro here there
  have hrenames := FileSet.under_renames hsource htarget hfiles
  obtain ⟨hok, herror⟩ := Form.ofFile_renamed hrenames ⟨name, hname, rfl⟩
    (fun c hc hfile => (hstays c hc).renames hsource htarget hfile) now
  rw [Path.moved_under] at hok herror
  exact ⟨hok, fun e he => ⟨_, herror e he⟩⟩

/-- A file that is named by a step up and with names that change nothing. -/
def clinicFiles : List (String × String) :=
  [("visit/form.comb", "@include \"../old/..//shared/./age\""), ("shared/age", "age integer:")]

def clinicForm : Form := ⟨[Row.ofList [("type", "integer"), ("name", "age")]], [], none⟩

theorem clinicForm_moves :
    (∀ file ∈ clinicFiles, Path.StaysInside file.1) ∧
    (∀ c, (FileSet.under "/" clinicFiles).sources.Meets "/visit/form.comb" c → c.StaysUnder "/") ∧
    (Form.ofFile (FileSet.under "/" clinicFiles).sources ⟨0, 0⟩ "/visit/form.comb").result =
      .ok clinicForm ∧
    (Form.ofFile (FileSet.under "/srv/clinic" clinicFiles).sources ⟨0, 0⟩
      "/srv/clinic/visit/form.comb").result = .ok clinicForm := by
  have hfiles : ∀ file ∈ clinicFiles, Path.StaysInside file.1 := by decide +kernel
  have honly : (FileSet.under "/" clinicFiles).sources.meetsOnly (fun c => c.StaysUnder "/") 20
      "/visit/form.comb" := by decide +kernel
  have hstays : ∀ c, (FileSet.under "/" clinicFiles).sources.Meets "/visit/form.comb" c →
      c.StaysUnder "/" := fun c hc => of_decide_eq_true (Sources.accept_of_meetsOnly honly hc)
  have hform : (Form.ofFile (FileSet.under "/" clinicFiles).sources ⟨0, 0⟩
      "/visit/form.comb").result = .ok clinicForm := eq_ok_of_toOption (by decide +kernel)
  have hmoves := moved_files_compile_alike (by decide : Path.IsDirectory "/")
    (by decide +kernel : Path.IsDirectory "/srv/clinic") hfiles
    (by decide +kernel : Path.StaysInside "visit/form.comb") hstays ⟨0, 0⟩
  exact ⟨hfiles, hstays, hform, (hmoves.1 clinicForm).mp hform⟩

/-- A file that is named through the name of its directory. -/
def detourFiles : List (String × String) :=
  [("form.comb", "@include \"../p/part.comb\""), ("part.comb", "q text:")]

/-- A path that leaves the directory and comes back by its name depends on the name, even though
all that is named lies below the directory. -/
theorem detour_depends_on_directory :
    (Path.IsDirectory "/p" ∧ Path.IsDirectory "/q" ∧
      (∀ file ∈ detourFiles, Path.StaysInside file.1) ∧ Path.StaysInside "form.comb" ∧
      ∀ c, (FileSet.under "/p" detourFiles).sources.Meets "/p/form.comb" c →
        Path.isAbsolute c.first = false ∧ Path.IsUnder "/p" c.target) ∧
    (∃ form, (Form.ofFile (FileSet.under "/p" detourFiles).sources ⟨0, 0⟩ "/p/form.comb").result =
      .ok form) ∧
    ¬ ∃ form, (Form.ofFile (FileSet.under "/q" detourFiles).sources ⟨0, 0⟩ "/q/form.comb").result =
      .ok form := by
  have honly : (FileSet.under "/p" detourFiles).sources.meetsOnly (fun c =>
      Path.isAbsolute c.first = false ∧ c.target = "/p/part.comb") 20 "/p/form.comb" := by
    decide +kernel
  refine ⟨⟨by decide +kernel, by decide +kernel, by decide +kernel, by decide +kernel, ?_⟩, ?_, ?_⟩
  · intro c hc
    obtain ⟨hrelative, htarget⟩ := of_decide_eq_true (Sources.accept_of_meetsOnly honly hc)
    exact ⟨hrelative, "part.comb", by decide +kernel, htarget⟩
  · refine ⟨⟨[Row.ofList [("type", "text"), ("name", "q")]], [], none⟩, ?_⟩
    exact eq_ok_of_toOption (by decide +kernel)
  · rintro ⟨form, hform⟩
    have hnone : (Form.ofFile (FileSet.under "/q" detourFiles).sources ⟨0, 0⟩
        "/q/form.comb").result.toOption = none := by decide +kernel
    rw [hform] at hnone
    cases hnone

end Form

end SurveyForms
