import SurveyForms.Proofs.DeeperLines

/-! What joining does to a text as a whole. Its lines fall into stretches: lines by themselves, and
headers with the lines below that continue them. Main statements: joining rewrites each such
stretch by itself and nothing else, and a text that has been joined is left alone. -/
namespace SurveyForms.Source

open Text

/-- Every run of spaces, tabs and line breaks has become one space. -/
inductive Squeezed : List Char → List Char → Prop
  | nil : Squeezed [] []
  | keep {c : Char} {cs out : List Char} (hc : ¬ isSqueezed c) (h : Squeezed cs out) :
    Squeezed (c :: cs) (c :: out)
  | run {gap cs out : List Char} (hne : gap ≠ []) (hgap : ∀ c ∈ gap, isSqueezed c)
    (hends : ∀ c ∈ cs.head?, ¬ isSqueezed c) (h : Squeezed cs out) :
    Squeezed (gap ++ cs) (' ' :: out)

theorem Squeezed.collapse_eq {cs out : List Char} (h : Squeezed cs out) : collapse cs = out := by
  induction h with
  | nil => rfl
  | keep hc _ ih => rw [collapse_cons, if_neg hc, ih]
  | @run gap cs out hne hgap hends _ ih =>
    have hhead : (collapse cs).head? ≠ some ' ' := by
      cases cs with
      | nil => simp [collapse]
      | cons c cs =>
        have hc := hends c rfl
        rw [collapse_cons, if_neg hc]
        rintro ⟨⟩
        exact hc rfl
    rw [collapse_append (.inr hhead), collapse_of_squeezed hne hgap, ih]
    rfl

theorem squeezed_collapse (cs : List Char) : Squeezed cs (collapse cs) := by
  induction hn : cs.length using Nat.strong_induction_on generalizing cs with
  | _ n ih =>
    cases cs with
    | nil => exact .nil
    | cons c cs =>
      rw [List.length_cons] at hn
      by_cases hc : isSqueezed c
      · have hrest := (List.dropWhile_suffix (l := cs) isSqueezed).length_le
        have hends : ∀ d ∈ (cs.dropWhile isSqueezed).head?, ¬ isSqueezed d := by
          intro d hd
          have := List.head?_dropWhile_not isSqueezed cs
          rw [hd] at this
          simpa using this
        have hgap : ∀ d ∈ c :: cs.takeWhile isSqueezed, isSqueezed d :=
          List.forall_mem_cons.mpr ⟨hc, fun d => List.mem_takeWhile_imp⟩
        have hrun := Squeezed.run (by simp) hgap hends (ih _ (by omega) _ rfl)
        rw [List.cons_append, List.takeWhile_append_dropWhile] at hrun
        rwa [hrun.collapse_eq]
      · rw [collapse_cons, if_neg hc]
        exact .keep hc (ih cs.length (by omega) cs rfl)

/-- A line that is indented like a header and deeper, and goes on with a double quote or a word
character. -/
def GoesOn (indent line : List Char) : Prop :=
  ∃ b more c rest, line = indent ++ b :: more ++ c :: rest ∧ (∀ d ∈ b :: more, isIndent d) ∧
    (c = '"' ∨ isWord c)

theorem continues_iff_goesOn {indent line : List Char} : continues indent line ↔
    GoesOn indent line := continues_iff

/-- What is put behind a header: the lines below it, squeezed, without white space at the ends. -/
def Added (below : List (List Char)) (added : List Char) : Prop :=
  ∃ squeezed, Squeezed (unlines below) squeezed ∧ added = trim squeezed

theorem added_iff {below : List (List Char)} {added : List Char} :
    Added below added ↔ added = joined below := by
  constructor
  · rintro ⟨squeezed, hsqueezed, rfl⟩
    rw [joined, hsqueezed.collapse_eq]
  · rintro rfl
    exact ⟨_, squeezed_collapse _, rfl⟩

/-- A line by itself, or a header with the lines below that are joined to it and what they add. -/
inductive Stretch where
  | line (text : List Char)
  | run (indent text spaces : List Char) (below : List (List Char)) (added : List Char)

namespace Stretch

def first : Stretch → List Char
  | .line text => text
  | .run indent text spaces _ _ => indent ++ text ++ spaces

def below : Stretch → List (List Char)
  | .line _ => []
  | .run _ _ _ below _ => below

def before (p : Stretch) : List (List Char) := p.first :: p.below

def after : Stretch → List (List Char)
  | .line text => [text]
  | .run indent text _ below added =>
    (indent ++ text ++ ' ' :: added) :: List.replicate below.length []

/-- A run is a header with at least one line that continues it. -/
def Sound : Stretch → Prop
  | .line _ => True
  | .run indent text spaces below added => IsHeader indent text spaces ∧ below ≠ [] ∧
    (∀ l ∈ below, GoesOn indent l) ∧ Added below added

/-- A further line would belong to the stretch as well. -/
def Takes : Stretch → List Char → Prop
  | .line l, next => ∃ indent text spaces, l = indent ++ text ++ spaces ∧
    IsHeader indent text spaces ∧ GoesOn indent next
  | .run indent _ _ _ _, next => GoesOn indent next

end Stretch

/-- The lines of a text fall into these stretches: no run could be longer, and no line by itself
is a header that the next line continues. -/
structure Splits (ls : List (List Char)) (parts : List Stretch) : Prop where
  lines_eq : parts.flatMap Stretch.before = ls
  sound : ∀ p ∈ parts, p.Sound
  complete : parts.IsChain fun p next => ¬ p.Takes next.first

/-- A header is its indentation, its text and the spaces behind it. -/
theorem exists_isHeader {line header : List Char} (hbreak : '\n' ∉ line)
    (h : head? (contentOf line) = some header) :
    ∃ spaces, line = indentOf line ++ header ++ spaces ∧
      IsHeader (indentOf line) header spaces := by
  obtain ⟨c, rest, spaces, rfl, hcontent, hspaces, hc⟩ := head?_eq_some h
  have hline : line = indentOf line ++ (c :: rest) ++ spaces := by
    rw [List.append_assoc, ← hcontent, indentOf_append_contentOf]
  have hunbroken : '\n' ∉ c :: rest := fun hmem => hbreak (by
    rw [hline]
    exact List.mem_append_left _ (List.mem_append_right _ hmem))
  refine ⟨spaces, hline, isIndent_of_mem_indentOf, hspaces, hunbroken, ?_⟩
  rw [hcontent, List.cons_append, head?] at h
  split at h
  · next hat =>
    -- a command keeps the spaces at its end
    exact .inl ⟨by simpa using hat, by simpa using h⟩
  split at h
  · next hquestion =>
    simp only [Bool.and_eq_true, Bool.not_eq_true', beq_iff_eq] at hquestion
    obtain ⟨⟨hword, hblock⟩, hlast⟩ := hquestion
    rw [Option.some.inj h] at hlast
    exact .inr ⟨⟨c, rfl, hword⟩, hblock, hlast⟩
  · cases h

/-- A line by itself takes the next one exactly if joining would put it behind. -/
theorem takes_line_iff {l next : List Char} (hbreak : '\n' ∉ l) :
    (Stretch.line l).Takes next ↔ Joins l next := by
  constructor
  · rintro ⟨indent, text, spaces, rfl, hheader, hnext⟩
    refine ⟨by rw [hheader.head?_contentOf]; rfl, ?_⟩
    rw [hheader.indentOf_eq]
    exact continues_iff_goesOn.mpr hnext
  · rintro ⟨hhead, hnext⟩
    obtain ⟨header, hheader⟩ := Option.isSome_iff_exists.mp hhead
    obtain ⟨spaces, hline, hheader⟩ := exists_isHeader hbreak hheader
    exact ⟨_, header, spaces, hline, hheader, continues_iff_goesOn.mp hnext⟩

theorem foldLines_cons_of_not_joins {line : List Char} {rest : List (List Char)}
    (h : ∀ next ∈ rest.head?, ¬ Joins line next) :
    foldLines (line :: rest) = line :: foldLines rest := by
  cases hhead : head? (contentOf line) with
  | none => exact foldLines_cons_of_none hhead rest
  | some header =>
    have hnone : ∀ l ∈ ([] : List (List Char)), continues (indentOf line) l := by simp
    refine foldLines_run hhead hnone fun next hnext hcontinues => ?_
    exact h next hnext ⟨by rw [hhead]; rfl, hcontinues⟩

theorem Stretch.foldLines_run {indent text spaces added : List Char} {below rest : List (List Char)}
    (h : (Stretch.run indent text spaces below added).Sound)
    (hrest : ∀ next ∈ rest.head?, ¬ GoesOn indent next) :
    foldLines ((Stretch.run indent text spaces below added).before ++ rest) =
      (Stretch.run indent text spaces below added).after ++ foldLines rest := by
  obtain ⟨hheader, hne, hbelow, hadded⟩ := h
  have hindent := hheader.indentOf_eq
  have hrun : ∀ l ∈ below, continues (indentOf (indent ++ text ++ spaces)) l := by
    rw [hindent]
    exact fun l hl => continues_iff_goesOn.mpr (hbelow l hl)
  have hstop : ∀ l ∈ rest.head?, ¬ continues (indentOf (indent ++ text ++ spaces)) l := by
    rw [hindent]
    exact fun l hl hcontinues => hrest l hl (continues_iff_goesOn.mp hcontinues)
  have hfold := Source.foldLines_run hheader.head?_contentOf hrun hstop
  rw [wrapped_of_ne_nil hne, hindent, ← added_iff.mp hadded, List.map_const'] at hfold
  exact hfold

namespace Splits

variable {ls : List (List Char)} {parts : List Stretch}

theorem cons {p : Stretch} (hp : p.Sound) (hnext : ∀ next ∈ ls.head?, ¬ p.Takes next)
    (h : Splits ls parts) : Splits (p.before ++ ls) (p :: parts) where
  lines_eq := by rw [List.flatMap_cons, h.lines_eq]
  sound := List.forall_mem_cons.mpr ⟨hp, h.sound⟩
  complete := by
    refine List.isChain_cons.mpr ⟨fun q hq => hnext q.first ?_, h.complete⟩
    obtain ⟨rest, rfl⟩ := List.head?_eq_some_iff.mp hq
    rw [← h.lines_eq]
    rfl

theorem uncons {p : Stretch} (h : Splits ls (p :: parts)) :
    ∃ rest, ls = p.before ++ rest ∧ p.Sound ∧ (∀ next ∈ rest.head?, ¬ p.Takes next) ∧
      Splits rest parts := by
  obtain ⟨hp, hsound⟩ := List.forall_mem_cons.mp h.sound
  obtain ⟨hnext, hcomplete⟩ := List.isChain_cons.mp h.complete
  refine ⟨parts.flatMap Stretch.before, h.lines_eq.symm, hp, fun next hmem => ?_, rfl, hsound,
    hcomplete⟩
  cases parts with
  | nil => cases hmem
  | cons q parts =>
    cases hmem
    exact hnext q rfl

/-- Joining rewrites stretch by stretch. -/
theorem foldLines_eq (h : Splits ls parts) (hbreak : ∀ l ∈ ls, '\n' ∉ l) :
    foldLines ls = parts.flatMap Stretch.after := by
  induction parts generalizing ls with
  | nil =>
    rw [← h.lines_eq]
    exact foldLines.eq_1
  | cons p parts ih =>
    obtain ⟨rest, rfl, hp, hnext, hrest⟩ := h.uncons
    obtain ⟨hbefore, hbreak⟩ := List.forall_mem_append.mp hbreak
    rw [List.flatMap_cons, ← ih hrest hbreak]
    cases p with
    | line l =>
      have hl : '\n' ∉ l := hbefore l List.mem_cons_self
      exact foldLines_cons_of_not_joins fun next hmem hjoins =>
        hnext next hmem ((takes_line_iff hl).mpr hjoins)
    | run indent text spaces below added => exact Stretch.foldLines_run hp hnext

end Splits

/-- All lines fall into stretches. -/
theorem exists_splits {ls : List (List Char)} (hbreak : ∀ l ∈ ls, '\n' ∉ l) :
    ∃ parts, Splits ls parts := by
  induction hn : ls.length using Nat.strong_induction_on generalizing ls with
  | _ n ih =>
    cases ls with
    | nil => exact ⟨[], rfl, by simp, .nil⟩
    | cons line rest =>
      obtain ⟨hline, hrest⟩ := List.forall_mem_cons.mp hbreak
      rw [List.length_cons] at hn
      -- the lines that joining puts behind the first one, if any
      by_cases hjoins : ∀ next ∈ rest.head?, ¬ Joins line next
      · obtain ⟨parts, hparts⟩ := ih rest.length (by omega) hrest rfl
        have hsound : (Stretch.line line).Sound := trivial
        refine ⟨.line line :: parts, hparts.cons hsound fun next hnext htakes => ?_⟩
        exact hjoins next hnext ((takes_line_iff hline).mp htakes)
      · push Not at hjoins
        obtain ⟨next, hnext, hhead, hcontinues⟩ := hjoins
        obtain ⟨header, hheader⟩ := Option.isSome_iff_exists.mp hhead
        obtain ⟨spaces, hsplit, hheader⟩ := exists_isHeader hline hheader
        obtain ⟨run, more, rfl, -, hrun, hmore⟩ := exists_run line rest
        have hne : run ≠ [] := by
          rintro rfl
          exact hmore next hnext hcontinues
        obtain ⟨parts, hparts⟩ := ih more.length (by simp at hn; omega)
          (List.forall_mem_append.mp hrest).2 rfl
        have hsound : (Stretch.run (indentOf line) header spaces run (joined run)).Sound :=
          ⟨hheader, hne, fun l hl => continues_iff_goesOn.mp (hrun l hl), added_iff.mpr rfl⟩
        refine ⟨.run (indentOf line) header spaces run (joined run) :: parts, ?_⟩
        have hcons := hparts.cons hsound fun l hl hgoes =>
          hmore l hl (continues_iff_goesOn.mpr hgoes)
        rwa [Stretch.before, Stretch.first, ← hsplit] at hcons

/-- The characters of a text that are no white space. -/
def visible (cs : List Char) : List Char := cs.filter (!isBlank ·)

theorem visible_append (a b : List Char) : visible (a ++ b) = visible a ++ visible b :=
  List.filter_append a b

theorem visible_eq_nil {cs : List Char} (h : ∀ c ∈ cs, isBlank c) : visible cs = [] := by
  simpa [visible] using h

theorem visible_unlines (ls : List (List Char)) : visible (unlines ls) = ls.flatMap visible := by
  induction ls with
  | nil => rfl
  | cons l ls ih =>
    cases ls with
    | nil => simp [unlines, glue]
    | cons l' ls =>
      have hbreak : visible ['\n'] = [] := visible_eq_nil (by simp [isBlank])
      have hglue : unlines (l :: l' :: ls) = l ++ (['\n'] ++ unlines (l' :: ls)) := rfl
      rw [hglue, visible_append, visible_append, hbreak, ih, List.flatMap_cons]
      rfl

theorem visible_trim (cs : List Char) : visible (trim cs) = visible cs := by
  have hstart (cs : List Char) : visible (cs.dropWhile isBlank) = visible cs := by
    have htake : visible (cs.takeWhile isBlank) = [] :=
      visible_eq_nil fun c => List.mem_takeWhile_imp
    conv_rhs => rw [← List.takeWhile_append_dropWhile (p := isBlank) (l := cs), visible_append,
      htake, List.nil_append]
  have hreverse (cs : List Char) : visible cs.reverse = (visible cs).reverse := List.filter_reverse
  rw [trim, trimEnd, hreverse, hstart, hreverse, List.reverse_reverse, trimStart, hstart]

theorem Squeezed.visible_eq {cs out : List Char} (h : Squeezed cs out) :
    visible out = visible cs := by
  induction h with
  | nil => rfl
  | @keep c cs out _ _ ih =>
    rw [← List.singleton_append, visible_append, ih, ← visible_append, List.singleton_append]
  | @run gap cs out _ hgap _ _ ih =>
    have hgap : visible gap = [] := visible_eq_nil fun c hc => isBlank_of_isSqueezed (hgap c hc)
    rw [visible_append, hgap, List.nil_append, ← ih]
    rfl

namespace Stretch

theorem length_after (p : Stretch) : p.after.length = p.before.length := by
  cases p <;> simp [after, before, below]

theorem visible_after {p : Stretch} (h : p.Sound) :
    p.after.flatMap visible = p.before.flatMap visible := by
  cases p with
  | line l => rfl
  | run indent text spaces below added =>
    obtain ⟨hheader, _, _, squeezed, hsqueezed, rfl⟩ := h
    have hspaces : visible spaces = [] := visible_eq_nil fun c hc => by rw [hheader.ends c hc]; rfl
    have hadded : visible (trim squeezed) = below.flatMap visible := by
      rw [visible_trim, hsqueezed.visible_eq, visible_unlines]
    have hempty : (List.replicate below.length ([] : List Char)).flatMap visible = [] := by
      simp [visible]
    have hspace : visible (' ' :: trim squeezed) = visible (trim squeezed) := rfl
    rw [after, List.flatMap_cons, visible_append, visible_append, hspace, hadded, hempty, before,
      List.flatMap_cons, first, visible_append, visible_append, hspaces, Stretch.below]
    simp

end Stretch

/-- The lines of a text fall into stretches, and joining makes of them what it makes of each
stretch. So it keeps the number of lines and every character that is no white space. -/
theorem joining_rewrites_stretches (src : String) :
    (∀ out, lines (foldContinuations src).toList = out ↔
      ∃ parts, Splits (lines src.toList) parts ∧ parts.flatMap Stretch.after = out) ∧
    (lines (foldContinuations src).toList).length = (lines src.toList).length ∧
    visible (foldContinuations src).toList = visible src.toList := by
  have hbreak := break_not_mem_lines src.toList
  obtain ⟨parts, hparts⟩ := exists_splits hbreak
  have hfold : lines (foldContinuations src).toList = parts.flatMap Stretch.after := by
    rw [lines_foldContinuations, hparts.foldLines_eq hbreak]
  refine ⟨fun out => ⟨?_, ?_⟩, ?_, ?_⟩
  · rintro rfl
    exact ⟨parts, hparts, hfold.symm⟩
  · rintro ⟨parts, hparts, rfl⟩
    rw [lines_foldContinuations, hparts.foldLines_eq hbreak]
  · rw [hfold, ← hparts.lines_eq, List.length_flatMap, List.length_flatMap]
    simp only [Stretch.length_after]
  · have hvisible (src : String) : visible src.toList = (lines src.toList).flatMap visible := by
      rw [← visible_unlines, unlines, lines, glue_cut]
    rw [hvisible, hvisible src, hfold, ← hparts.lines_eq, List.flatMap_assoc, List.flatMap_assoc]
    exact List.flatMap_congr fun p hp => Stretch.visible_after (hparts.sound p hp)

/-- The first line of a stretch continues what it continued before. -/
theorem Stretch.continues_head_after {p : Stretch} (h : p.Sound) {indent : List Char}
    (hindent : ∀ b ∈ indent, isIndent b) :
    ∀ l ∈ p.after.head?, continues indent l ↔ continues indent p.first := by
  cases p with
  | line text =>
    rintro l ⟨⟩
    rfl
  | run header text spaces below added =>
    rintro l ⟨⟩
    obtain ⟨c, rest, rfl, hc⟩ := h.1.exists_cons
    have hheader := h.1.indented
    rw [Stretch.first, List.append_assoc, List.append_assoc, List.cons_append, List.cons_append,
      continues_append_iff hindent hheader hc, continues_append_iff hindent hheader hc]

theorem not_joins_nil (line : List Char) : ¬ Joins line [] := by
  rintro ⟨_, hcontinues⟩
  obtain ⟨b, more, c, rest, hnil, _⟩ := continues_iff.mp hcontinues
  simp at hnil

/-- In a text that has been joined no line joins the next: behind a run stand empty lines, and a
line by itself has the neighbour it had. -/
theorem Splits.isChain_after {ls : List (List Char)} {parts : List Stretch} (h : Splits ls parts)
    (hbreak : ∀ l ∈ ls, '\n' ∉ l) :
    (parts.flatMap Stretch.after).IsChain fun line next => ¬ Joins line next := by
  induction parts generalizing ls with
  | nil => exact .nil
  | cons p parts ih =>
    obtain ⟨rest, rfl, hp, hnext, hrest⟩ := h.uncons
    obtain ⟨hbefore, hbreak⟩ := List.forall_mem_append.mp hbreak
    rw [List.flatMap_cons, List.isChain_append]
    refine ⟨?_, ih hrest hbreak, ?_⟩
    · cases p with
      | line l => exact .singleton l
      | run indent text spaces below added =>
        refine List.isChain_cons.mpr ⟨fun next hmem => ?_, ?_⟩
        · rw [List.eq_of_mem_replicate (List.mem_of_head? hmem)]
          exact not_joins_nil _
        · exact List.isChain_replicate_of_rel _ (not_joins_nil [])
    · intro line hline next hmem hjoins
      cases p with
      | line l =>
        cases hline
        cases parts with
        | nil => cases hmem
        | cons q parts =>
          obtain ⟨behind, rfl, hq, _⟩ := hrest.uncons
          have hmem : next ∈ q.after.head? := by cases q <;> exact hmem
          have hfirst := (q.continues_head_after hq isIndent_of_mem_indentOf next hmem).mp hjoins.2
          exact hnext q.first rfl ((takes_line_iff (hbefore l List.mem_cons_self)).mpr
            ⟨hjoins.1, hfirst⟩)
      | run indent text spaces below added =>
        obtain ⟨_, hne, _⟩ := hp
        have hempty : List.replicate below.length ([] : List Char) ≠ [] := by simpa using hne
        rw [Stretch.after, List.getLast?_cons_of_ne_nil hempty] at hline
        obtain rfl := List.eq_of_mem_replicate (List.mem_of_getLast? hline)
        exact absurd hjoins.1 (by decide)

/-- A text that has been joined is not changed by joining it again. -/
theorem foldContinuations_foldContinuations (src : String) :
    foldContinuations (foldContinuations src) = foldContinuations src := by
  have hbreak := break_not_mem_lines src.toList
  obtain ⟨parts, hparts⟩ := exists_splits hbreak
  rw [foldContinuations_eq_self_iff, lines_foldContinuations, hparts.foldLines_eq hbreak]
  exact hparts.isChain_after hbreak

end SurveyForms.Source
