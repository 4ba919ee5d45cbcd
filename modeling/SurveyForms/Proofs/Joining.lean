import SurveyForms.Proofs.CommentedLine
import SurveyForms.Source.Fold

/-! The text of joined lines. Squeezing white space works piece by piece, so lines that are joined
to a statement only add to its end. -/
namespace SurveyForms

namespace Text

theorem trimStart_append {a : List Char} (h : ¬ allBlank a) (b : List Char) :
    trimStart (a ++ b) = trimStart a ++ b := by
  induction a with
  | nil => exact absurd rfl h
  | cons c a ih =>
    by_cases hc : isBlank c
    · have ha : ¬ allBlank a := by simpa [allBlank, hc] using h
      simpa [trimStart, hc] using ih ha
    · simp [trimStart, hc]

/-- What is added behind a character that stays is trimmed by itself. -/
theorem trimEnd_append {a : List Char} (h : ∀ c ∈ a.getLast?, ¬ isBlank c) (b : List Char) :
    trimEnd (a ++ b) = a ++ trimEnd b := by
  have ha : a.reverse.dropWhile isBlank = a.reverse := by
    cases hrev : a.reverse with
    | nil => rfl
    | cons c cs =>
      have hlast : a.getLast? = some c := by rw [← List.head?_reverse, hrev]; rfl
      exact List.dropWhile_cons_of_neg (h c hlast)
  rw [trimEnd, trimEnd, List.reverse_append, List.dropWhile_append, ha]
  split
  · next hempty => simp [List.isEmpty_iff.mp hempty]
  · simp

/-- Trimming stops at the first character that is not white space. -/
theorem trim_append_cons {gap : List Char} (hgap : ∀ b ∈ gap, isBlank b) {c : Char}
    (hc : ¬ isBlank c) (rest : List Char) : trim (gap ++ c :: rest) = c :: trimEnd rest := by
  have hlast : ∀ b ∈ [c].getLast?, ¬ isBlank b := by
    rintro b ⟨⟩
    exact hc
  rw [trim, trimStart, List.dropWhile_append_of_pos hgap, List.dropWhile_cons_of_neg hc]
  exact trimEnd_append hlast rest

theorem mem_of_mem_trimEnd {c : Char} {cs : List Char} (h : c ∈ trimEnd cs) : c ∈ cs := by
  have := (List.dropWhile_suffix (l := cs.reverse) isBlank).subset (List.mem_reverse.mp h)
  exact List.mem_reverse.mp this

end Text

namespace Source

open Text

def isSqueezed (c : Char) : Bool := isIndent c || c == '\n'

private def unspaced : List Char → List Char
  | ' ' :: cs => cs
  | cs => cs

private theorem unspaced_append {a : List Char} (h : a ≠ []) (b : List Char) :
    unspaced (a ++ b) = unspaced a ++ b := by
  cases a with
  | nil => exact absurd rfl h
  | cons c a =>
    by_cases hc : c = ' '
    · subst hc
      rfl
    · simp [unspaced, hc]

private theorem unspaced_of_head {a : List Char} (h : a.head? ≠ some ' ') : unspaced a = a := by
  unfold unspaced
  split
  · exact absurd rfl h
  · rfl

theorem collapse_cons (c : Char) (cs : List Char) : collapse (c :: cs) =
    if isSqueezed c then ' ' :: unspaced (collapse cs) else c :: collapse cs := by
  rw [collapse]
  refine if_congr Iff.rfl ?_ rfl
  split
  · next heq => rw [heq]; rfl
  · next hne =>
    rw [unspaced_of_head]
    intro hhead
    obtain ⟨rest, hrest⟩ := List.head?_eq_some_iff.mp hhead
    exact hne rest hrest

/-- A further character of a run of spaces changes nothing, and the first one becomes a space. -/
theorem collapse_cons_of_isSqueezed {c : Char} (hc : isSqueezed c) (cs : List Char) :
    collapse (c :: cs) = collapse cs ∨ collapse (c :: cs) = ' ' :: collapse cs := by
  rw [collapse_cons, if_pos hc]
  unfold unspaced
  split
  · next heq => exact .inl heq.symm
  · exact .inr rfl

/-- Texts collapse apart, unless a run of spaces goes over the border. -/
theorem collapse_append {a b : List Char}
    (h : (∀ c ∈ a.getLast?, ¬ isSqueezed c) ∨ (collapse b).head? ≠ some ' ') :
    collapse (a ++ b) = collapse a ++ collapse b := by
  induction a with
  | nil => rfl
  | cons c a ih =>
    rw [List.cons_append, collapse_cons, collapse_cons]
    cases a with
    | nil =>
      split
      · next hc =>
        have hb := h.resolve_left fun hlast => hlast c rfl hc
        rw [List.nil_append, unspaced_of_head hb]
        rfl
      · rfl
    | cons d a =>
      have ih := ih (by simpa using h)
      have hne : collapse (d :: a) ≠ [] := by
        rw [collapse_cons]
        split <;> simp
      rw [ih, unspaced_append hne]
      split <;> rfl

theorem collapse_of_squeezed {cs : List Char} (hne : cs ≠ []) (h : ∀ d ∈ cs, isSqueezed d) :
    collapse cs = [' '] := by
  induction cs with
  | nil => exact absurd rfl hne
  | cons c cs ih =>
    obtain ⟨hc, hcs⟩ := List.forall_mem_cons.mp h
    rw [collapse_cons, if_pos hc]
    cases cs with
    | nil => rfl
    | cons d cs => rw [ih (by simp) hcs]; rfl

theorem mem_collapse {c : Char} {cs : List Char} (h : c ∈ collapse cs) :
    c = ' ' ∨ c ∈ cs ∧ ¬ isSqueezed c := by
  induction cs with
  | nil => cases h
  | cons d cs ih =>
    have hunspaced : c ∈ unspaced (collapse cs) → c ∈ collapse cs := by
      unfold unspaced
      split
      · next heq => intro hc; rw [heq]; exact List.mem_cons_of_mem _ hc
      · exact id
    rw [collapse_cons] at h
    split at h
    · rcases List.mem_cons.mp h with rfl | h
      · exact .inl rfl
      · exact (ih (hunspaced h)).imp_right fun hc => ⟨List.mem_cons_of_mem _ hc.1, hc.2⟩
    · next hd =>
      rcases List.mem_cons.mp h with rfl | h
      · exact .inr ⟨List.mem_cons_self, hd⟩
      · exact (ih h).imp_right fun hc => ⟨List.mem_cons_of_mem _ hc.1, hc.2⟩

theorem break_not_mem_collapse (cs : List Char) : '\n' ∉ collapse cs := by
  intro hbreak
  rcases mem_collapse hbreak with hbreak | ⟨_, hbreak⟩
  · cases hbreak
  · exact hbreak (by decide)

theorem break_not_mem_joined (ls : List (List Char)) : '\n' ∉ joined ls := by
  intro hbreak
  have hmem := (List.dropWhile_suffix isBlank).subset (mem_of_mem_trimEnd hbreak)
  exact break_not_mem_collapse _ hmem

theorem isBlank_of_isSqueezed {c : Char} (h : isSqueezed c) : isBlank c := by
  simp only [isSqueezed, isIndent, Bool.or_eq_true, beq_iff_eq] at h
  rcases h with (rfl | rfl) | rfl <;> decide

theorem isBlank_of_isIndent {c : Char} (h : isIndent c) : isBlank c :=
  isBlank_of_isSqueezed (by simp [isSqueezed, h])

private theorem not_squeezed_of_not_blank {c : Char} (h : ¬ isBlank c) : ¬ isSqueezed c :=
  fun hc => h (isBlank_of_isSqueezed hc)

/-- How a line goes on behind a header: the header's indentation and more, then a character that
opens a quoted text or a word. -/
theorem continues_iff {indent line : List Char} : continues indent line ↔
    ∃ c more d rest, line = indent ++ c :: more ++ d :: rest ∧ (∀ b ∈ c :: more, isIndent b) ∧
      (d = '"' ∨ isWord d) := by
  constructor
  · intro h
    simp only [continues, Bool.and_eq_true, List.isPrefixOf_iff_prefix] at h
    obtain ⟨⟨tail, rfl⟩, h⟩ := h
    rw [List.drop_left] at h
    cases tail with
    | nil => cases h
    | cons c tail =>
      simp only [Bool.and_eq_true] at h
      obtain ⟨hc, hd⟩ := h
      cases hcontent : contentOf tail with
      | nil => simp [hcontent] at hd
      | cons d rest =>
        refine ⟨c, tail.takeWhile isIndent, d, rest, ?_, ?_, ?_⟩
        · have := List.takeWhile_append_dropWhile (p := isIndent) (l := tail)
          rw [contentOf] at hcontent
          rw [hcontent] at this
          rw [List.append_assoc, List.cons_append, this]
        · exact List.forall_mem_cons.mpr ⟨hc, fun b => List.mem_takeWhile_imp⟩
        · simpa [hcontent] using hd
  · rintro ⟨c, more, d, rest, rfl, hall, hd⟩
    obtain ⟨hc, hmore⟩ := List.forall_mem_cons.mp hall
    have hindent : ¬ isIndent d := fun hindent =>
      (first_of_joined hd).1 (isBlank_of_isIndent hindent)
    have hcontent : contentOf (more ++ d :: rest) = d :: rest := by
      rw [contentOf, List.dropWhile_append_of_pos hmore, List.dropWhile_cons_of_neg hindent]
    simpa [continues, hc, hcontent] using hd

theorem isIndent_of_mem_indentOf {line : List Char} : ∀ c ∈ indentOf line, isIndent c :=
  fun _ => List.mem_takeWhile_imp

theorem indentOf_append_contentOf (line : List Char) : indentOf line ++ contentOf line = line :=
  List.takeWhile_append_dropWhile

/-- The indentation of a line that starts with indenting characters and goes on with another. -/
theorem indentOf_append {indent : List Char} (hall : ∀ c ∈ indent, isIndent c) {d : Char}
    (hd : ¬ isIndent d) (rest : List Char) : indentOf (indent ++ d :: rest) = indent := by
  rw [indentOf, List.takeWhile_append_of_pos hall, List.takeWhile_cons_of_neg hd, List.append_nil]

/-- What continues a continuing line continues the header too. -/
theorem continues_trans {header line next : List Char} (h : continues (indentOf header) line)
    (hnext : continues (indentOf line) next) : continues (indentOf header) next := by
  obtain ⟨c, more, d, rest, rfl, hall, hd⟩ := continues_iff.mp h
  obtain ⟨c', more', d', rest', rfl, hall', hd'⟩ := continues_iff.mp hnext
  have hindent : ¬ isIndent d := fun hindent =>
    (first_of_joined hd).1 (isBlank_of_isIndent hindent)
  have hline : ∀ b ∈ indentOf header ++ c :: more, isIndent b :=
    List.forall_mem_append.mpr ⟨isIndent_of_mem_indentOf, hall⟩
  rw [indentOf_append hline hindent]
  refine continues_iff.mpr ⟨c, more ++ c' :: more', d', rest', by simp, ?_, hd'⟩
  rw [← List.cons_append]
  exact List.forall_mem_append.mpr ⟨hall, hall'⟩

/-- What a list of further lines adds to the text in front of it. -/
def unlinesBelow (ls : List (List Char)) : List Char := if ls = [] then [] else '\n' :: unlines ls

theorem unlines_append_cons (a : List (List Char)) (code tail : List Char) (b : List (List Char)) :
    unlines (a ++ (code ++ tail) :: b) = unlines (a ++ [code]) ++ (tail ++ unlinesBelow b) := by
  induction a with
  | nil =>
    cases b with
    | nil => simp [unlines, glue, unlinesBelow]
    | cons l b => simp [unlines, glue, unlinesBelow]
  | cons l a ih =>
    have hcons {ls : List (List Char)} (hne : ls ≠ []) :
        unlines (l :: ls) = l ++ '\n' :: unlines ls := by
      cases ls with
      | nil => exact absurd rfl hne
      | cons m ls => rfl
    rw [List.cons_append, List.cons_append, hcons (by simp), hcons (by simp), ih]
    simp

private theorem collapse_last {cs : List Char} {c : Char} (h : cs.getLast? = some c)
    (hc : ¬ isBlank c) :
    (trimStart (collapse cs)).getLast? = some c ∧ ¬ allBlank (collapse cs) := by
  obtain ⟨init, rfl⟩ := List.getLast?_eq_some_iff.mp h
  have hsqueezed := not_squeezed_of_not_blank hc
  have hlast : collapse [c] = [c] := by rw [collapse_cons, if_neg hsqueezed]; rfl
  have hspace : c ≠ ' ' := by
    rintro rfl
    exact hc rfl
  rw [collapse_append (.inr (by simpa [hlast] using hspace)), hlast]
  refine ⟨?_, by simp [allBlank, hc]⟩
  rw [trimStart, List.dropWhile_append]
  split
  · simp [hc]
  · simp

/-- Lines that are joined to a statement that ends in no white space only add to its end. -/
theorem joined_append {code : List Char} (hne : code ≠ []) (hsolid : Solid code)
    (run : List (List Char)) (tail : List Char) (more : List (List Char)) :
    joined (run ++ (code ++ tail) :: more) =
      joined (run ++ [code]) ++ trimEnd (collapse (tail ++ unlinesBelow more)) ∧
      (joined (run ++ [code])).getLast? = code.getLast? := by
  have hcode := List.getLast?_eq_getLast_of_ne_nil hne
  have hc := (hsolid _ hcode).1
  have hlast : (unlines (run ++ [code])).getLast? = some (code.getLast hne) := by
    have := unlines_append_cons run [] code []
    rw [List.nil_append] at this
    rw [this, unlinesBelow, if_pos rfl, List.append_nil, List.getLast?_append_of_ne_nil _ hne,
      hcode]
  obtain ⟨htrim, hblank⟩ := collapse_last hlast hc
  have hkeep (b : List Char) : trimEnd (trimStart (collapse (unlines (run ++ [code]))) ++ b) =
      trimStart (collapse (unlines (run ++ [code]))) ++ trimEnd b :=
    trimEnd_append (by rw [htrim]; rintro d ⟨⟩; exact hc) b
  have hself : joined (run ++ [code]) = trimStart (collapse (unlines (run ++ [code]))) := by
    have := hkeep []
    rw [List.append_nil] at this
    rw [joined, trim, this]
    exact List.append_nil _
  constructor
  · have hborder : ∀ d ∈ (unlines (run ++ [code])).getLast?, ¬ isSqueezed d := by
      rw [hlast]
      rintro d ⟨⟩
      exact not_squeezed_of_not_blank hc
    rw [hself, joined, trim, unlines_append_cons, collapse_append (.inl hborder),
      trimStart_append hblank, hkeep]
  · rw [hself, htrim, hcode]

/-- What a comment adds is a comment, with all the lines that follow it. -/
theorem commentTail_joined {tail : List Char} (h : CommentTail tail) (more : List (List Char)) :
    CommentTail (trimEnd (collapse (tail ++ unlinesBelow more))) := by
  obtain ⟨gap, body, rfl, hgap, _⟩ := h
  have hmark (z : List Char) : collapse ('#' :: z) = '#' :: collapse z := by
    rw [collapse_cons, if_neg (by decide)]
  rw [List.append_assoc, List.cons_append, collapse_append (.inr (by rw [hmark]; simp)), hmark]
  refine ⟨collapse gap, trimEnd (collapse (body ++ unlinesBelow more)), ?_, ?_, ?_⟩
  · have hlast : ∀ c ∈ (collapse gap ++ ['#']).getLast?, ¬ isBlank c := by
      rw [List.getLast?_concat]
      rintro c ⟨⟩
      decide
    have := trimEnd_append hlast (collapse (body ++ unlinesBelow more))
    simpa using this
  · intro c hc
    rcases mem_collapse hc with rfl | ⟨hc, _⟩
    · decide
    · exact hgap c hc
  · exact fun hbreak => break_not_mem_collapse _ (mem_of_mem_trimEnd hbreak)

/-- What continuing lines add is a space and text that opens as the first of them does. -/
theorem joined_of_continues {indent line : List Char} (hindent : ∀ c ∈ indent, isIndent c)
    (hline : continues indent line) (more : List (List Char)) :
    JoinedTail (trimEnd (collapse (unlinesBelow (line :: more)))) ∧
      trimEnd (collapse (unlinesBelow (line :: more))) = ' ' :: joined (line :: more) := by
  obtain ⟨c, deeper, d, rest, rfl, hdeeper, hd⟩ := continues_iff.mp hline
  have hblank := (first_of_joined hd).1
  have hspace : d ≠ ' ' := by
    rintro rfl
    exact hblank rfl
  have hfirst (z : List Char) : collapse (d :: z) = d :: collapse z := by
    rw [collapse_cons, if_neg (not_squeezed_of_not_blank hblank)]
  have hgap : ∀ b ∈ indent ++ c :: deeper, isSqueezed b := fun b hb => by
    simp [isSqueezed, List.forall_mem_append.mpr ⟨hindent, hdeeper⟩ b hb]
  have hcollapse {gap : List Char} (hne : gap ≠ []) (hall : ∀ b ∈ gap, isSqueezed b)
      (z : List Char) : collapse (gap ++ d :: z) = ' ' :: d :: collapse z := by
    rw [collapse_append (.inr (by simpa [hfirst] using hspace)), collapse_of_squeezed hne hall,
      hfirst]
    rfl
  have hunlines : unlines ((indent ++ c :: deeper ++ d :: rest) :: more) =
      (indent ++ c :: deeper) ++ d :: (rest ++ unlinesBelow more) := by
    have := unlines_append_cons [] (indent ++ c :: deeper ++ d :: rest) [] more
    simpa [unlines, glue] using this
  have hbelow : collapse (unlinesBelow ((indent ++ c :: deeper ++ d :: rest) :: more)) =
      ' ' :: d :: collapse (rest ++ unlinesBelow more) := by
    rw [unlinesBelow, if_neg (by simp), hunlines, ← List.cons_append]
    exact hcollapse (by simp) (List.forall_mem_cons.mpr ⟨by decide, hgap⟩) _
  have htrim : trimEnd (' ' :: d :: collapse (rest ++ unlinesBelow more)) =
      ' ' :: d :: trimEnd (collapse (rest ++ unlinesBelow more)) := by
    have hlast : ∀ b ∈ [' ', d].getLast?, ¬ isBlank b := by
      rintro b ⟨⟩
      exact hblank
    exact trimEnd_append hlast _
  have hjoined : joined ((indent ++ c :: deeper ++ d :: rest) :: more) =
      d :: trimEnd (collapse (rest ++ unlinesBelow more)) := by
    have hlast : ∀ b ∈ [d].getLast?, ¬ isBlank b := by
      rintro b ⟨⟩
      exact hblank
    have htrimStart : trimStart (' ' :: d :: collapse (rest ++ unlinesBelow more)) =
        d :: collapse (rest ++ unlinesBelow more) := by
      rw [trimStart, List.dropWhile_cons_of_pos (by decide), List.dropWhile_cons_of_neg hblank]
    rw [joined, trim, hunlines, hcollapse (by simp) hgap, htrimStart]
    exact trimEnd_append hlast _
  rw [hbelow, htrim, hjoined]
  exact ⟨⟨d, _, rfl, hd, fun hbreak => break_not_mem_collapse _ (mem_of_mem_trimEnd hbreak)⟩, rfl⟩

end Source
end SurveyForms
