import SurveyForms.Files.FileSet
import SurveyForms.Files.Tree
import SurveyForms.Proofs.Resolution

/-! Where paths lead. A path is walked name by name, and cleaning it first does not change where
the walk ends. So the canonical path of what a command names is the end of one walk, from the
directory of the command's file along the text of the command, however that is spelled. -/
namespace SurveyForms

namespace Text

/-- Every separator ends a part. -/
theorem cut_append_sep (sep : Char) (a b : List Char) :
    cut sep (a ++ sep :: b) = cut sep a ++ cut sep b := by
  induction a with
  | nil => simp [cut]
  | cons c a ih =>
    rw [List.cons_append, cut, cut, ih]
    split
    · rfl
    · cases hcut : cut sep a with
      | nil => exact absurd hcut (cut_ne_nil sep a)
      | cons part parts => rfl

theorem not_mem_of_mem_cut {sep : Char} {cs part : List Char} (h : part ∈ cut sep cs) :
    sep ∉ part := by
  induction cs generalizing part with
  | nil => simp_all [cut]
  | cons c cs ih =>
    rw [cut] at h
    split at h
    · rcases List.mem_cons.mp h with rfl | h
      · exact List.not_mem_nil
      · exact ih h
    next hc =>
    cases hcut : cut sep cs with
    | nil => exact absurd hcut (cut_ne_nil sep cs)
    | cons first parts =>
      rw [hcut] at h ih
      rcases List.mem_cons.mp h with rfl | h
      · simp [Ne.symm hc, ih List.mem_cons_self]
      · exact ih (List.mem_cons_of_mem first h)

end Text

namespace Path

/-- The names walked, innermost first, after a path that starts at `start`. -/
def walk (start : List String) (p : String) : List String := (rawNames p).foldl (step true) start

/-- Where a path leads, seen from `home`. -/
def place (home : List String) (p : String) : List String :=
  walk (if isAbsolute p then [] else home) p

/-- A name that takes one step down. -/
structure IsPlain (name : String) : Prop where
  ne_empty : name ≠ ""
  ne_dot : name ≠ "."
  ne_up : name ≠ ".."
  no_slash : '/' ∉ name.toList

theorem no_slash_of_mem_rawNames {p name : String} (h : name ∈ rawNames p) :
    '/' ∉ name.toList := by
  obtain ⟨part, hpart, rfl⟩ := List.mem_map.mp h
  simpa using Text.not_mem_of_mem_cut hpart

theorem rawNames_of_no_slash {name : String} (h : '/' ∉ name.toList) : rawNames name = [name] := by
  simp [rawNames, Text.cut_of_not_mem h]

theorem rawNames_append (a b : String) : rawNames (a ++ "/" ++ b) = rawNames a ++ rawNames b := by
  have htext : (a ++ "/" ++ b).toList = a.toList ++ '/' :: b.toList := by simp
  rw [rawNames, htext, Text.cut_append_sep, List.map_append]
  rfl

theorem walk_append (start : List String) (a b : String) :
    walk start (a ++ "/" ++ b) = walk (walk start a) b := by
  rw [walk, rawNames_append, List.foldl_append]
  rfl

theorem walk_of_no_slash {name : String} (h : '/' ∉ name.toList) (start : List String) :
    walk start name = step true start name := by
  rw [walk, rawNames_of_no_slash h]
  rfl

theorem walk_empty (start : List String) : walk start "" = start :=
  walk_of_no_slash (by decide) start

theorem walk_slash (start : List String) (p : String) : walk start ("/" ++ p) = walk start p := by
  have h := walk_append start "" p
  rwa [walk_empty, String.empty_append] at h

theorem rawNames_intercalate {names : List String} (hne : names ≠ [])
    (h : ∀ name ∈ names, '/' ∉ name.toList) : rawNames (String.intercalate "/" names) = names := by
  induction names with
  | nil => exact absurd rfl hne
  | cons name names ih =>
    obtain ⟨hname, hnames⟩ := List.forall_mem_cons.mp h
    cases names with
    | nil => simpa using rawNames_of_no_slash hname
    | cons next names =>
      rw [String.intercalate_cons_cons, rawNames_append, ih (List.cons_ne_nil _ _) hnames,
        rawNames_of_no_slash hname]
      rfl

theorem walk_intercalate {names : List String} (h : ∀ name ∈ names, '/' ∉ name.toList)
    (start : List String) :
    walk start (String.intercalate "/" names) = names.foldl (step true) start := by
  cases names with
  | nil => exact walk_empty start
  | cons name names => rw [walk, rawNames_intercalate (List.cons_ne_nil _ _) h]

/-- What a step keeps are names that are not skipped. -/
theorem kept_of_mem_step {rooted : Bool} {walked : List String} {x name : String}
    (h : name ∈ step rooted walked x) :
    name ∈ walked ∨ name = x ∧ name ≠ "" ∧ name ≠ "." := by
  unfold step at h
  split at h
  · exact .inl h
  next hskip =>
  have hx : x ≠ "" ∧ x ≠ "." := not_or.mp hskip
  split at h
  · next hup =>
    split at h
    · split at h
      · exact .inl h
      · rw [List.mem_singleton.mp h, ← hup]
        exact .inr ⟨rfl, hx⟩
    · split at h
      · rcases List.mem_cons.mp h with rfl | h
        · exact .inr ⟨hup.symm, hup ▸ hx⟩
        · exact .inl h
      · exact .inl (List.mem_cons_of_mem _ h)
  · rcases List.mem_cons.mp h with rfl | h
    · exact .inr ⟨rfl, hx⟩
    · exact .inl h

theorem kept_of_mem_foldl {rooted : Bool} {names : List String} {name : String} :
    ∀ {walked : List String}, name ∈ names.foldl (step rooted) walked →
      name ∈ walked ∨ name ∈ names ∧ name ≠ "" ∧ name ≠ "." := by
  induction names with
  | nil => exact .inl
  | cons x names ih =>
    intro walked h
    rcases ih h with h | ⟨h, hname⟩
    · rcases kept_of_mem_step h with h | ⟨rfl, hname⟩
      · exact .inl h
      · exact .inr ⟨List.mem_cons_self, hname⟩
    · exact .inr ⟨List.mem_cons_of_mem x h, hname⟩

/-- The names of a normal path, walked from `start`, take up one more step of the text. A path
that is not rooted may go up from any place, a rooted one only from the root. -/
theorem foldl_step {rooted : Bool} {walked start : List String}
    (hstart : rooted = false ∨ start = []) (hkept : ∀ name ∈ walked, name ≠ "" ∧ name ≠ ".")
    (x : String) :
    (step rooted walked x).reverse.foldl (step true) start =
      step true (walked.reverse.foldl (step true) start) x := by
  by_cases hskip : x = "" ∨ x = "."
  · simp only [step, if_pos hskip]
  by_cases hup : x = ".."
  · subst hup
    cases walked with
    | nil =>
      rcases hstart with rfl | rfl
      · rfl
      · cases rooted <;> rfl
    | cons last outer =>
      by_cases hlast : last = ".."
      · subst hlast
        have hstep : step rooted (".." :: outer) ".." = ".." :: ".." :: outer := rfl
        rw [hstep]
        simp only [List.reverse_cons, List.foldl_append, List.foldl_cons, List.foldl_nil]
      · have hstep : step rooted (last :: outer) ".." = outer := by simp [step, hlast]
        have hdown : ∀ w, step true w last = last :: w := by
          intro w
          simp [step, hkept last List.mem_cons_self, hlast]
        rw [hstep, List.reverse_cons, List.foldl_append, List.foldl_cons, List.foldl_nil, hdown]
        simp [step, hlast]
  · simp only [step, if_neg hskip, if_neg hup, List.reverse_cons, List.foldl_append,
      List.foldl_cons, List.foldl_nil]

theorem foldl_foldl_step {rooted : Bool} {start : List String}
    (hstart : rooted = false ∨ start = []) (names : List String) :
    ∀ walked : List String, (∀ name ∈ walked, name ≠ "" ∧ name ≠ ".") →
      (names.foldl (step rooted) walked).reverse.foldl (step true) start =
        names.foldl (step true) (walked.reverse.foldl (step true) start) := by
  induction names with
  | nil => exact fun _ _ => rfl
  | cons x names ih =>
    intro walked hkept
    rw [List.foldl_cons, List.foldl_cons, ih, foldl_step hstart hkept]
    intro name hname
    rcases kept_of_mem_step hname with h | ⟨-, h⟩
    · exact hkept name h
    · exact h

theorem mem_names_ofString {p name : String} (h : name ∈ (ofString p).names) :
    '/' ∉ name.toList ∧ name ≠ "" ∧ name ≠ "." := by
  rcases kept_of_mem_foldl (List.mem_reverse.mp h) with h | ⟨h, hname⟩
  · cases h
  · exact ⟨no_slash_of_mem_rawNames h, hname⟩

theorem isAbsolute_slash (p : String) : isAbsolute ("/" ++ p) = true := by
  simp [isAbsolute]

theorem isAbsolute_append {a : String} (h : a ≠ "") (b : String) :
    isAbsolute (a ++ b) = isAbsolute a := by
  have : a.toList ≠ [] := by simpa using h
  obtain ⟨c, cs, hcs⟩ := List.exists_cons_of_ne_nil this
  simp [isAbsolute, hcs]

theorem isAbsolute_of_no_slash {name : String} (h : '/' ∉ name.toList) :
    isAbsolute name = false := by
  rw [isAbsolute]
  cases hname : name.toList with
  | nil => rfl
  | cons c cs =>
    have : c ≠ '/' := fun hc => h (by simp [hname, hc])
    simp [this]

theorem intercalate_ne_empty {first : String} (hne : first ≠ "") (names : List String) :
    String.intercalate "/" (first :: names) ≠ "" := by
  cases names with
  | nil => simpa using hne
  | cons next names => simp [String.intercalate_cons_cons]

theorem clean_ne_empty (p : String) : clean p ≠ "" := by
  unfold clean toString
  split
  · simp
  · split
    · decide
    · cases hnames : (ofString p).names with
      | nil => simp_all
      | cons first names =>
        have hfirst := mem_names_ofString (hnames ▸ List.mem_cons_self : first ∈ (ofString p).names)
        exact intercalate_ne_empty hfirst.2.1 names

theorem isAbsolute_clean (p : String) : isAbsolute (clean p) = isAbsolute p := by
  unfold clean toString
  cases hrooted : isAbsolute p with
  | true =>
    have : (ofString p).rooted = true := hrooted
    rw [if_pos this]
    exact isAbsolute_slash _
  | false =>
    have : (ofString p).rooted = false := hrooted
    simp only [this, Bool.false_eq_true, if_false]
    split
    · rfl
    cases hnames : (ofString p).names with
    | nil => rfl
    | cons first names =>
      obtain ⟨hslash, hne, -⟩ :=
        mem_names_ofString (hnames ▸ List.mem_cons_self : first ∈ (ofString p).names)
      have hfirst := isAbsolute_of_no_slash hslash
      cases names with
      | nil => simpa using hfirst
      | cons next names =>
        rw [String.intercalate_cons_cons, String.append_assoc, isAbsolute_append hne]
        exact hfirst

/-- A cleaned path is walked like the path itself. -/
theorem walk_clean {p : String} {start : List String} (h : isAbsolute p = false ∨ start = []) :
    walk start (clean p) = walk start p := by
  have hnames : ∀ name ∈ (ofString p).names, '/' ∉ name.toList :=
    fun name hname => (mem_names_ofString hname).1
  have hclean : walk start (clean p) = (ofString p).names.foldl (step true) start := by
    unfold clean toString
    split
    · rw [walk_slash, walk_intercalate hnames]
    · split
      · next hempty =>
        rw [List.isEmpty_iff.mp hempty]
        exact walk_of_no_slash (by decide) start
      · exact walk_intercalate hnames start
  rw [hclean]
  exact foldl_foldl_step h (rawNames p) [] (by simp)

theorem place_clean (home : List String) (p : String) : place home (clean p) = place home p := by
  rw [place, place, isAbsolute_clean]
  apply walk_clean
  cases isAbsolute p <;> simp

/-- A path in a directory leads where it leads seen from that directory. -/
theorem place_append {dir p : String} (hdir : dir ≠ "") (hp : isAbsolute p = false)
    (home : List String) : place home (dir ++ "/" ++ p) = place (place home dir) p := by
  rw [place, walk_append, String.append_assoc, isAbsolute_append hdir]
  simp only [place, hp, Bool.false_eq_true, if_false]

theorem place_resolve {dir : String} (hdir : dir ≠ "") (home : List String) (p : String) :
    place home (resolve dir p) = place (place home dir) p := by
  unfold resolve
  split
  · next h =>
    rw [place_clean]
    simp only [place, h, if_true]
  next h =>
  have h : isAbsolute p = false := by simpa using h
  unfold join
  split
  · next hempty =>
    subst hempty
    rw [place_clean]
    exact (walk_empty _).symm
  · rw [place_clean, place_append hdir h]

/-- A step from plain names gives plain names: a step up is never kept there. -/
theorem plain_of_mem_step {walked : List String} (hwalked : ∀ name ∈ walked, IsPlain name)
    {x : String} (hx : '/' ∉ x.toList) : ∀ name ∈ step true walked x, IsPlain name := by
  intro name hname
  rcases kept_of_mem_step hname with h | ⟨rfl, hempty, hdot⟩
  · exact hwalked name h
  refine ⟨hempty, hdot, ?_, hx⟩
  rintro rfl
  cases walked with
  | nil => cases hname
  | cons last outer =>
    have hlast := (hwalked last List.mem_cons_self).ne_up
    have hstep : step true (last :: outer) ".." = outer := by simp [step, hlast]
    rw [hstep] at hname
    exact (hwalked _ (List.mem_cons_of_mem last hname)).ne_up rfl

theorem plain_of_mem_foldl {names : List String} (hnames : ∀ x ∈ names, '/' ∉ x.toList) :
    ∀ walked : List String, (∀ name ∈ walked, IsPlain name) →
      ∀ name ∈ names.foldl (step true) walked, IsPlain name := by
  induction names with
  | nil => exact fun _ h => h
  | cons x names ih =>
    intro walked hwalked
    obtain ⟨hx, hnames⟩ := List.forall_mem_cons.mp hnames
    exact ih hnames _ (plain_of_mem_step hwalked hx)

theorem plain_of_mem_place {home : List String} (hhome : ∀ name ∈ home, IsPlain name) (p : String) :
    ∀ name ∈ place home p, IsPlain name := by
  refine plain_of_mem_foldl (fun x => no_slash_of_mem_rawNames) _ ?_
  split
  · exact fun name hname => by cases hname
  · exact hhome

/-- Plain names lead down. -/
theorem foldl_step_plain {walked : List String} (h : ∀ name ∈ walked, IsPlain name)
    (rooted : Bool) (start : List String) :
    walked.reverse.foldl (step rooted) start = walked ++ start := by
  induction walked with
  | nil => rfl
  | cons name walked ih =>
    obtain ⟨hname, hwalked⟩ := List.forall_mem_cons.mp h
    rw [List.reverse_cons, List.foldl_append, ih hwalked]
    simp [step, hname.ne_empty, hname.ne_dot, hname.ne_up]

/-- The text of a place leads back to it. -/
theorem place_toString {walked : List String} (h : ∀ name ∈ walked, IsPlain name)
    (home : List String) : place home (toString ⟨true, walked.reverse⟩) = walked := by
  have hnames : ∀ name ∈ walked.reverse, '/' ∉ name.toList :=
    fun name hname => (h name (List.mem_reverse.mp hname)).no_slash
  simp only [place, toString, if_true, isAbsolute_slash, walk_slash]
  rw [walk_intercalate hnames, foldl_step_plain h, List.append_nil]

/-- A cleaned rooted path is the text of the place that the path leads to. -/
theorem clean_of_isAbsolute {p : String} (h : isAbsolute p) (home : List String) :
    clean p = toString ⟨true, (place home p).reverse⟩ := by
  simp only [clean, ofString, place, walk, h, if_true]

theorem resolve_of_isAbsolute {dir : String} (h : isAbsolute dir) (home : List String)
    (p : String) : resolve dir p = toString ⟨true, (place home (resolve dir p)).reverse⟩ := by
  have hclean : ∃ q, resolve dir p = clean q ∧ isAbsolute q := by
    have hdir : dir ≠ "" := by
      rintro rfl
      cases h
    unfold resolve join
    split
    · next hp => exact ⟨p, rfl, hp⟩
    · split
      · exact ⟨dir, rfl, h⟩
      · refine ⟨_, rfl, ?_⟩
        rwa [String.append_assoc, isAbsolute_append hdir]
  obtain ⟨q, hresolve, hq⟩ := hclean
  rw [hresolve, place_clean]
  exact clean_of_isAbsolute hq home

/-- One path written in two ways: with or without a name `.`, or a step down and up again. -/
inductive Respelled : String → String → Prop
  | dot (a b : String) : Respelled (a ++ "/./" ++ b) (a ++ "/" ++ b)
  | here {b : String} (hb : isAbsolute b = false) : Respelled ("./" ++ b) b
  | detour (a : String) {x : String} (hx : IsPlain x) (b : String) :
      Respelled (a ++ "/" ++ x ++ "/../" ++ b) (a ++ "/" ++ b)
  | back {x b : String} (hx : IsPlain x) (hb : isAbsolute b = false) :
      Respelled (x ++ "/../" ++ b) b

private theorem isAbsolute_append_slash (a b : String) :
    isAbsolute (a ++ "/" ++ b) = (a == "" || isAbsolute a) := by
  by_cases ha : a = ""
  · subst ha
    exact isAbsolute_slash b
  · rw [String.append_assoc, isAbsolute_append ha]
    simp [ha]

private theorem walk_down_up {x : String} (hx : IsPlain x) (start : List String) (b : String) :
    walk start (x ++ "/" ++ ".." ++ "/" ++ b) = walk start b := by
  have hup : '/' ∉ "..".toList := by decide
  rw [walk_append, walk_append, walk_of_no_slash hx.no_slash, walk_of_no_slash hup]
  simp [step, hx.ne_empty, hx.ne_dot, hx.ne_up]

private theorem walk_dot (start : List String) (b : String) :
    walk start ("." ++ "/" ++ b) = walk start b := by
  have hdot : '/' ∉ ".".toList := by decide
  rw [walk_append, walk_of_no_slash hdot]
  rfl

/-- The spelling of a path does not change where it leads. -/
theorem Respelled.place_eq {p q : String} (h : Respelled p q) (home : List String) :
    place home p = place home q := by
  have hdot : "/./" = "/" ++ ("." ++ "/") := by decide
  have hup : "/../" = "/" ++ (".." ++ "/") := by decide
  have hhere : "./" = "." ++ "/" := by decide
  cases h with
  | dot a b =>
    have hp : a ++ "/./" ++ b = a ++ "/" ++ ("." ++ "/" ++ b) := by
      simp only [hdot, String.append_assoc]
    rw [hp, place, place, isAbsolute_append_slash, isAbsolute_append_slash, walk_append, walk_dot,
      walk_append]
  | here hb =>
    rw [hhere, place, place, hb, isAbsolute_append_slash, walk_dot]
    rfl
  | @detour a x hx b =>
    have hp : a ++ "/" ++ x ++ "/../" ++ b = a ++ "/" ++ (x ++ "/" ++ ".." ++ "/" ++ b) := by
      simp only [hup, String.append_assoc]
    rw [hp, place, place, isAbsolute_append_slash, isAbsolute_append_slash, walk_append,
      walk_down_up hx, walk_append]
  | @back x _ hx hb =>
    have hp : x ++ "/../" ++ q = x ++ "/" ++ ".." ++ "/" ++ q := by
      simp only [hup, String.append_assoc]
    have hx' : isAbsolute (x ++ "/" ++ ".." ++ "/" ++ q) = false := by
      rw [String.append_assoc, String.append_assoc, String.append_assoc,
        isAbsolute_append hx.ne_empty]
      exact isAbsolute_of_no_slash hx.no_slash
    rw [hp, place, place, hx', hb, walk_down_up hx]

end Path

namespace Sources

/-- Canonical paths are the texts of the places that paths lead to, seen from `home`. -/
structure Lexical (s : Sources) (home : List String) : Prop where
  plain : ∀ name ∈ home, Path.IsPlain name
  canonical : ∀ p, s.canonical p = Path.toString ⟨true, (Path.place home p).reverse⟩

/-- Canonical paths are rooted and clean, and a command names the same file however its target is
spelled: with or without names that change nothing, and by the canonical path itself. -/
structure IgnoresSpelling (s : Sources) : Prop where
  normal : ∀ p, Path.isAbsolute (s.canonical p) ∧ Path.clean (s.canonical p) = s.canonical p
  respelled : ∀ (c : Command) (p q : String), Path.Respelled p q →
    s.canonical (Command.target { c with first := p }) =
      s.canonical (Command.target { c with first := q })
  rooted : ∀ c : Command,
    s.canonical (Command.target { c with first := s.canonical c.target }) = s.canonical c.target

theorem Lexical.canonical_target {s : Sources} {home : List String} (h : s.Lexical home)
    (c : Command) : s.canonical c.target =
      Path.toString ⟨true,
        (Path.place (Path.place home (Path.directory c.pos.file)) c.first).reverse⟩ := by
  have hdir : Path.directory c.pos.file ≠ "" := Path.clean_ne_empty _
  rw [h.canonical, Command.target, Path.place_resolve hdir]

/-- A canonical path leads where the path leads, from anywhere. -/
theorem Lexical.place_canonical {s : Sources} {home : List String} (h : s.Lexical home)
    (p : String) (start : List String) : Path.place start (s.canonical p) = Path.place home p := by
  rw [h.canonical, Path.place_toString (Path.plain_of_mem_place h.plain p)]

theorem Lexical.ignoresSpelling {s : Sources} {home : List String} (h : s.Lexical home) :
    s.IgnoresSpelling := by
  have habsolute : ∀ p, Path.isAbsolute (s.canonical p) := by
    intro p
    rw [h.canonical]
    exact Path.isAbsolute_slash _
  refine ⟨fun p => ⟨habsolute p, ?_⟩, fun c p q hpq => ?_, fun c => ?_⟩
  · rw [Path.clean_of_isAbsolute (habsolute p) home, h.place_canonical, h.canonical]
  · rw [h.canonical_target, h.canonical_target, hpq.place_eq]
  · rw [h.canonical_target, h.place_canonical, h.canonical]

end Sources

theorem FileSet.lexical (files : FileSet) : files.sources.Lexical [] := by
  refine ⟨fun name hname => (by cases hname), fun p => ?_⟩
  have hroot : Path.isAbsolute "/" := by decide
  have hplace : Path.place [] (Path.resolve "/" (Path.clean p)) = Path.place [] p := by
    rw [Path.place_resolve (by decide), Path.place_clean]
    rfl
  have := Path.resolve_of_isAbsolute hroot [] (Path.clean p)
  rw [hplace] at this
  exact this

theorem FileTree.lexical {t : FileTree} (h : ∀ name ∈ t.home, Path.IsPlain name) :
    t.sources.Lexical t.home.reverse :=
  ⟨fun name hname => h name (List.mem_reverse.mp hname), fun _ => rfl⟩

end SurveyForms
