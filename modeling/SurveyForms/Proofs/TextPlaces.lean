import Mathlib.Data.List.DropRight
import Mathlib.Data.List.Forall2
import SurveyForms.Proofs.FaultPlaces
import SurveyForms.Proofs.References
import SurveyForms.Proofs.StatementLines

/-! Places in texts, and what becomes of them when a text is rewritten. Joining wrapped lines keeps
the number of a statement and its indentation; putting bound texts in keeps the numbers of all
lines, as long as no line break is put in. -/
namespace SurveyForms

open Source Text

/-- The line of a text that has this number. -/
def lineAt? (text : String) : Nat → Option (List Char)
  | 0 => none
  | n + 1 => (lines text.toList)[n]?

/-- The width of a text with its tabs expanded, from `width` columns on. -/
def columns (width : Nat) : List Char → Nat
  | [] => width
  | c :: cs => columns (if c = '\t' then (width / tabWidth + 1) * tabWidth else width + 1) cs

/-- A place that points into a text: the text has that line, it is not blank, and the column is
on the line or right behind it. -/
def Position.PointsInto (p : Position) (text : String) : Prop :=
  ∃ line ∈ lineAt? text p.line, allBlank line = false ∧ 1 ≤ p.col ∧ p.col ≤ 1 + columns 0 line

instance (p : Position) (text : String) : Decidable (p.PointsInto text) :=
  inferInstanceAs (Decidable (∃ line ∈ lineAt? text p.line, _))

private theorem lt_tabStop (width : Nat) : width + 1 ≤ (width / tabWidth + 1) * tabWidth := by
  simp only [tabWidth]
  omega

/-- Every character takes a column. -/
theorem length_le_columns (width : Nat) (cs : List Char) :
    width + cs.length ≤ columns width cs := by
  induction cs generalizing width with
  | nil => exact Nat.le_refl _
  | cons c cs ih =>
    rw [columns, List.length_cons]
    split
    · have := ih ((width / tabWidth + 1) * tabWidth)
      have := lt_tabStop width
      omega
    · have := ih (width + 1)
      omega

/-- A line starts on the line or right behind it. -/
theorem indentColumn_le (width : Nat) (cs : List Char) :
    width + 1 ≤ indentColumn width cs ∧ indentColumn width cs ≤ 1 + columns width cs := by
  induction cs generalizing width with
  | nil => exact ⟨Nat.le_refl _, Nat.le_of_eq (Nat.add_comm _ _)⟩
  | cons c cs ih =>
    by_cases hspace : c = ' '
    · subst hspace
      have := ih (width + 1)
      simp only [indentColumn, columns, if_neg (show ' ' ≠ '\t' by decide)]
      omega
    by_cases htab : c = '\t'
    · subst htab
      have := ih ((width / tabWidth + 1) * tabWidth)
      have := lt_tabStop width
      simp only [indentColumn, columns, if_pos]
      omega
    have hstop : indentColumn width (c :: cs) = width + 1 := by
      unfold indentColumn
      split <;> simp_all
    have := length_le_columns width (c :: cs)
    simp only [List.length_cons] at this
    omega

/-- A line that is read stands in the text, and starts where the line of the text starts. -/
theorem line_of_mem_ofSource {src : String} {l : Line} (h : l ∈ Line.ofSource src) :
    ∃ raw, lineAt? src l.number = some raw ∧ allBlank raw = false ∧
      l.col = indentColumn 0 raw ∧ l.text = withoutReturn raw := by
  obtain ⟨⟨raw, number⟩, hraw, hl⟩ := List.mem_filterMap.mp h
  obtain ⟨hnumber, hat⟩ := List.mk_mem_zipIdx_iff_le_and_getElem?_sub.mp hraw
  have hl : Line.ofText? number raw = some l := hl
  rw [ofText?_withoutReturn] at hl
  split at hl
  · cases hl
  next hvisible =>
  cases hl
  refine ⟨raw, ?_, ?_, indentColumn_withoutReturn hvisible, rfl⟩
  · obtain ⟨n, rfl⟩ := Nat.exists_eq_add_of_le' hnumber
    exact hat
  · rw [← allBlank_withoutReturn]
    simpa using hvisible

/-- A fault on a line points into the text that the line was read from. -/
theorem OnSomeLine.pointsInto {file src : String} {d : Diagnostic} (h : OnSomeLine file src d) :
    d.pos.PointsInto src := by
  obtain ⟨l, hl, h⟩ := h
  obtain ⟨raw, hat, hblank, hcol, htext⟩ := line_of_mem_ofSource hl
  have hlength := (withoutReturn_isPrefix raw).length_le
  have hindent := indentColumn_le 0 raw
  have hcolumns := length_le_columns 0 raw
  cases h with
  | start fault =>
    refine ⟨raw, hat, hblank, ?_⟩
    simp only [Line.start, hcol]
    omega
  | inside _ hlow hhigh =>
    refine ⟨raw, hat, hblank, hlow, ?_⟩
    rw [htext] at hhigh
    simp only
    omega

/-! Joining wrapped lines. -/

/-- What joining makes of a line: it stays, its statement moves up, or it takes further lines. -/
inductive Folded : List Char → List Char → Prop
  | kept (line : List Char) : Folded line line
  | moved (line : List Char) : Folded line []
  | wrapped {line folded : List Char} (hblank : allBlank line = false)
      (hcol : indentColumn 0 folded = indentColumn 0 line) : Folded line folded

private theorem folded_wrapped {line header : List Char} (h : head? (contentOf line) = some header)
    (run : List (List Char)) : Folded line (wrapped line header run) := by
  unfold wrapped
  split
  · exact .kept line
  obtain ⟨c, rest, spaces, rfl, hcontent, _, hc⟩ := head?_eq_some h
  have hnot : isBlank c = false := by
    rcases hc with rfl | hc
    · rfl
    · simpa using (first_of_joined (.inr hc)).1
  have hblank (tail : List Char) : allBlank (indentOf line ++ (c :: rest) ++ tail) = false := by
    simp [allBlank, hnot]
  have hline : line = indentOf line ++ (c :: rest) ++ spaces := by
    rw [List.append_assoc, ← hcontent, indentOf_append_contentOf]
  have hcol (tail : List Char) : indentColumn 0 (indentOf line ++ (c :: rest) ++ tail) =
      indentColumn 0 (indentOf line ++ (c :: rest)) := by
    refine indentColumn_append (exists_not_indent ?_) tail
    simpa using hblank []
  refine .wrapped ?_ ?_
  · rw [hline]
    exact hblank spaces
  · rw [hcol]
    conv_rhs => rw [hline]
    exact (hcol spaces).symm

/-- Line by line, joining does one of three things. -/
theorem folded_foldLines (raws : List (List Char)) :
    List.Forall₂ Folded raws (foldLines raws) := by
  induction hn : raws.length using Nat.strong_induction_on generalizing raws with
  | _ n ih =>
    cases raws with
    | nil =>
      rw [foldLines]
      exact .nil
    | cons line rest =>
      rw [List.length_cons] at hn
      cases hhead : head? (contentOf line) with
      | none =>
        rw [foldLines_cons_of_none hhead]
        exact .cons (.kept line) (ih _ (by omega) rest rfl)
      | some header =>
        rw [foldLines_cons_of_some hhead]
        have hdrop := (List.dropWhile_suffix (l := rest) (continues (indentOf line))).length_le
        have hafter := ih _ (by omega) (rest.dropWhile (continues (indentOf line))) rfl
        have hmoved (run : List (List Char)) :
            List.Forall₂ Folded run (run.map fun _ => []) := by
          rw [List.forall₂_map_right_iff]
          exact List.forall₂_same.mpr fun l _ => .moved l
        refine .cons (folded_wrapped hhead _) ?_
        conv => arg 2; rw [← List.takeWhile_append_dropWhile (p := continues (indentOf line))
          (l := rest)]
        exact List.rel_append (hmoved _) hafter

private theorem exists_of_forall₂ {R : α → β → Prop} {as : List α} {bs : List β}
    (h : List.Forall₂ R as bs) {n : Nat} {b : β} (hb : bs[n]? = some b) :
    ∃ a, as[n]? = some a ∧ R a b := by
  induction h generalizing n with
  | nil => simp at hb
  | cons hab _ ih =>
    cases n with
    | zero =>
      cases hb
      exact ⟨_, rfl, hab⟩
    | succ n => exact ih hb

theorem exists_lineAt? {R : List Char → List Char → Prop} {text src : String}
    (h : List.Forall₂ R (lines text.toList) (lines src.toList)) {n : Nat} {line : List Char}
    (hline : lineAt? src n = some line) : ∃ raw, lineAt? text n = some raw ∧ R raw line := by
  cases n with
  | zero => cases hline
  | succ n => exact exists_of_forall₂ h hline

theorem folded_foldContinuations (src : String) :
    List.Forall₂ Folded (lines src.toList) (lines (foldContinuations src).toList) := by
  rw [lines_foldContinuations]
  exact folded_foldLines _

/-- A line that is read has a line of the source behind it, as it is or with the same start. -/
theorem Dialect.folded_shown (d : Dialect) (src : String) :
    List.Forall₂ Folded (lines src.toList) (lines (d.shown src).toList) := by
  cases d with
  | survey => exact folded_foldContinuations src
  | choices => exact List.forall₂_same.mpr fun line _ => .kept line

/-! Putting bound texts in. -/

/-- A text is what its pieces were read from. -/
theorem source_pieces (start cs : List Char) :
    (pieces start cs).flatMap (·.source start) = cs := by
  fun_induction pieces start cs with
  | case1 cs name rest h ih =>
    rw [List.flatMap_cons, ih, (reference?_eq_some_iff.mp h).2.2]
    simp [Piece.source]
  | case2 h => rfl
  | case3 c rest h ih => rw [List.flatMap_cons, ih]; rfl

theorem lines_append {a cs l : List Char} {ls : List (List Char)} (ha : '\n' ∉ a)
    (h : lines cs = l :: ls) : lines (a ++ cs) = (a ++ l) :: ls := by
  induction a with
  | nil => exact h
  | cons c a ih =>
    rw [List.mem_cons, not_or] at ha
    obtain ⟨hc, ha⟩ := ha
    have hcut : cut '\n' (a ++ cs) = (a ++ l) :: ls := ih ha
    rw [lines, List.cons_append, cut, if_neg (Ne.symm hc), hcut]
    rfl

namespace Source

/-- A piece and the text that is put in its place. -/
inductive Put (bindings : Row) : Piece → List Char → Prop
  | plain (c : Char) : Put bindings (.plain c) [c]
  | reference {name : List Char} {value : String}
      (h : bindings.get? (String.ofList name) = some value) :
      Put bindings (.reference name) value.toList

/-- Either something is put in place of the first piece, or its name is not bound. -/
theorem replace_cons (bindings : Row) (offset : Nat) (p : Piece) (ps : List Piece) :
    (∃ put, Put bindings p put ∧ replace bindings offset (p :: ps) =
      (replace bindings (offset + byteLength (p.source opening)) ps).map (put ++ ·)) ∨
    ∃ name, p = .reference name ∧ bindings.get? (String.ofList name) = none ∧
      replace bindings offset (p :: ps) = .error (offset, String.ofList name) := by
  have hmap (put : List Char) (x : Except (Nat × String) (List Char)) :
      (x >>= fun tail => .ok (put ++ tail)) = x.map (put ++ ·) := by
    cases x <;> rfl
  cases p with
  | plain c => exact .inl ⟨[c], .plain c, hmap [c] _⟩
  | reference name =>
    cases hbound : bindings.get? (String.ofList name) with
    | none =>
      refine .inr ⟨name, rfl, hbound, ?_⟩
      simp only [replace, hbound]
      rfl
    | some value =>
      refine .inl ⟨value.toList, .reference hbound, ?_⟩
      rw [← hmap]
      simp only [replace, hbound]
      rfl

/-- A name that is referred to, or the text that is bound to it, goes over a line break. -/
def PutsBreak (bindings : Row) (ps : List Piece) : Prop :=
  ∃ name, .reference name ∈ ps ∧
    ('\n' ∈ name ∨ ∃ value ∈ bindings.get? (String.ofList name), '\n' ∈ value.toList)

/-- What putting texts in makes of a line. There is nothing to put into a blank one. -/
def Filled (line filled : List Char) : Prop := allBlank line → filled = line

private theorem filled_append {a b cs out : List Char} (ha : '\n' ∉ a) (hb : '\n' ∉ b)
    (hab : Filled a b) (h : List.Forall₂ Filled (lines cs) (lines out)) :
    List.Forall₂ Filled (lines (a ++ cs)) (lines (b ++ out)) := by
  cases hcs : lines cs with
  | nil => exact absurd hcs (cut_ne_nil '\n' cs)
  | cons t ts =>
    cases hout : lines out with
    | nil => exact absurd hout (cut_ne_nil '\n' out)
    | cons s ss =>
      rw [hcs, hout] at h
      rw [lines_append ha hcs, lines_append hb hout]
      obtain ⟨hfirst, hrest⟩ := List.forall₂_cons.mp h
      refine .cons (fun hblank => ?_) hrest
      rw [allBlank, List.all_append, Bool.and_eq_true] at hblank
      rw [hab hblank.1, hfirst hblank.2]

/-- Line by line, putting texts without line breaks in changes no blank line. -/
theorem filled_replace {bindings : Row} {offset : Nat} {ps : List Piece} {out : List Char}
    (h : replace bindings offset ps = .ok out) (hbreak : ¬ PutsBreak bindings ps) :
    List.Forall₂ Filled (lines (ps.flatMap (·.source opening))) (lines out) := by
  induction ps generalizing offset out with
  | nil =>
    cases h
    exact List.forall₂_same.mpr fun _ _ _ => rfl
  | cons p ps ih =>
    have hps : ¬ PutsBreak bindings ps := by
      rintro ⟨name, hname, hbad⟩
      exact hbreak ⟨name, List.mem_cons_of_mem p hname, hbad⟩
    rcases replace_cons bindings offset p ps with ⟨put, hput, hreplace⟩ | ⟨_, _, _, hreplace⟩
    · rw [hreplace] at h
      cases htail : replace bindings (offset + byteLength (p.source opening)) ps with
      | error e => rw [htail] at h; cases h
      | ok tail =>
        rw [htail] at h
        cases h
        have hrest := ih htail hps
        rw [List.flatMap_cons]
        cases hput with
        | plain c =>
          by_cases hc : c = '\n'
          · subst hc
            exact .cons (fun _ => rfl) hrest
          · have hmem : '\n' ∉ [c] := by simpa using Ne.symm hc
            exact filled_append hmem hmem (fun _ => rfl) hrest
        | @reference name value hbound =>
          have hgood : '\n' ∉ name ∧ '\n' ∉ value.toList := by
            constructor
            · exact fun hn => hbreak ⟨name, List.mem_cons_self, .inl hn⟩
            · exact fun hn => hbreak ⟨name, List.mem_cons_self, .inr ⟨value, hbound, hn⟩⟩
          refine filled_append ?_ hgood.2 (fun hblank => ?_) hrest
          · simp [Piece.source, opening, hgood.1]
          · -- a reference begins with a dollar sign
            cases hblank
    · rw [hreplace] at h
      cases h

theorem filled_substitute {file text src : String} {bindings : Row}
    (h : substitute file text bindings = .ok src)
    (hbreak : ¬ PutsBreak bindings (pieces opening text.toList)) :
    List.Forall₂ Filled (lines text.toList) (lines src.toList) := by
  unfold substitute at h
  split at h
  · next cs hcs =>
    cases h
    have hfilled := filled_replace hcs hbreak
    rwa [source_pieces, ← String.toList_ofList (l := cs)] at hfilled
  · cases h

theorem byteLength_append (a b : List Char) :
    byteLength (a ++ b) = byteLength a + byteLength b := by
  induction a with
  | nil => exact (Nat.zero_add _).symm
  | cons c a ih => simp only [List.cons_append, byteLength, ih, Nat.add_assoc]

/-- A name that is not bound, with the offset of its reference. -/
theorem replace_eq_error {bindings : Row} {offset found : Nat} {ps : List Piece} {unbound : String}
    (h : replace bindings offset ps = .error (found, unbound)) :
    ∃ before name after, ps = before ++ .reference name :: after ∧ String.ofList name = unbound ∧
      bindings.get? unbound = none ∧
        found = offset + byteLength (before.flatMap (·.source opening)) := by
  induction ps generalizing offset with
  | nil => cases h
  | cons p ps ih =>
    rcases replace_cons bindings offset p ps with ⟨put, _, hreplace⟩ | ⟨name, rfl, hnone, hreplace⟩
    · rw [hreplace] at h
      cases htail : replace bindings (offset + byteLength (p.source opening)) ps with
      | ok tail => rw [htail] at h; cases h
      | error e =>
        rw [htail] at h
        cases h
        obtain ⟨before, name, after, rfl, hname, hnone, hfound⟩ := ih htail
        refine ⟨p :: before, name, after, rfl, hname, hnone, ?_⟩
        rw [hfound, List.flatMap_cons, byteLength_append, Nat.add_assoc]
    · rw [hreplace] at h
      cases h
      exact ⟨[], name, ps, rfl, rfl, hnone, rfl⟩

end Source

/-! Places by byte offsets. -/

private theorem ofNat_ne_break {n : Nat} (h : n % 256 ≠ 10) : 10 ≠ UInt8.ofNat n := by
  rw [Ne, ← UInt8.toNat_inj, UInt8.toNat_ofNat']
  exact Ne.symm h

theorem break_not_mem_utf8EncodeChar {c : Char} (h : c ≠ '\n') :
    10 ∉ String.utf8EncodeChar c := by
  have hc : c.val.toNat ≠ 10 := fun he => h (Char.ext (UInt32.toNat_inj.mp he))
  unfold String.utf8EncodeChar
  simp only
  generalize c.val.toNat = v at hc
  -- a character of several bytes has none below 128
  split
  · simp only [List.mem_singleton]
    exact ofNat_ne_break (by omega)
  split
  · simp only [List.mem_cons, List.not_mem_nil, or_false, not_or]
    exact ⟨ofNat_ne_break (by omega), ofNat_ne_break (by omega)⟩
  split
  · simp only [List.mem_cons, List.not_mem_nil, or_false, not_or]
    exact ⟨ofNat_ne_break (by omega), ofNat_ne_break (by omega), ofNat_ne_break (by omega)⟩
  · simp only [List.mem_cons, List.not_mem_nil, or_false, not_or]
    exact ⟨ofNat_ne_break (by omega), ofNat_ne_break (by omega), ofNat_ne_break (by omega),
      ofNat_ne_break (by omega)⟩

theorem length_bytes (cs : List Char) :
    (cs.flatMap String.utf8EncodeChar).length = byteLength cs := by
  induction cs with
  | nil => rfl
  | cons c cs ih =>
    rw [List.flatMap_cons, List.length_append, String.length_utf8EncodeChar, ih, byteLength]

theorem count_break (cs : List Char) :
    (cs.flatMap String.utf8EncodeChar).count 10 = cs.count '\n' := by
  induction cs with
  | nil => rfl
  | cons c cs ih =>
    rw [List.flatMap_cons, List.count_append, ih, List.count_cons, Nat.add_comm]
    by_cases hc : c = '\n'
    · subst hc
      rfl
    · rw [List.count_eq_zero_of_not_mem (break_not_mem_utf8EncodeChar hc), beq_false_of_ne hc]
      rfl

theorem length_behind_break (cs : List Char) :
    ((cs.flatMap String.utf8EncodeChar).reverse.takeWhile (· ≠ 10)).length =
      byteLength (cs.rtakeWhile (· ≠ '\n')) := by
  induction cs using List.reverseRecOn with
  | nil => rfl
  | append_singleton cs c ih =>
    rw [List.flatMap_append, List.flatMap_singleton, List.reverse_append]
    by_cases hc : c = '\n'
    · subst hc
      rw [List.rtakeWhile_concat_neg _ _ _ (by simp)]
      rfl
    · have hpos : ∀ b ∈ (String.utf8EncodeChar c).reverse, decide (b ≠ 10) = true := by
        intro b hb
        exact decide_eq_true
          (ne_of_mem_of_not_mem (List.mem_reverse.mp hb) (break_not_mem_utf8EncodeChar hc))
      rw [List.takeWhile_append_of_pos hpos, List.length_append, List.length_reverse,
        String.length_utf8EncodeChar, ih, List.rtakeWhile_concat_pos _ _ _ (by simpa using hc),
        byteLength_append]
      simp [byteLength, Nat.add_comm]

namespace Position

/-- The place of a character of a source, with a column in bytes. -/
def ofChar (file src : String) (start : Nat) : Position :=
  let before := src.toList.take start
  ⟨file, before.count '\n' + 1, byteLength (before.rtakeWhile (· ≠ '\n')) + 1⟩

/-- The place of a byte offset is that of the character that starts there. -/
theorem ofOffset_byteLength (file src : String) (start : Nat) :
    ofOffset file src (byteLength (src.toList.take start)) = ofChar file src start := by
  have htake : (bytes src).take (byteLength (src.toList.take start)) =
      (src.toList.take start).flatMap String.utf8EncodeChar := by
    rw [bytes]
    conv => enter [1, 2, 2]; rw [← List.take_append_drop start src.toList]
    rw [List.flatMap_append, List.take_left' (length_bytes _)]
  simp only [ofOffset, ofChar, htake, count_break, length_behind_break]

end Position

/-- The line that the end of a text is on, with what the text has of it. -/
theorem exists_lines_above (before : List Char) : ∃ above,
    before.count '\n' = above.length ∧ ∀ rest l below, lines rest = l :: below →
      lines (before ++ rest) = above ++ (before.rtakeWhile (· ≠ '\n') ++ l) :: below := by
  induction before using List.reverseRecOn with
  | nil => exact ⟨[], rfl, fun _ _ _ h => h⟩
  | append_singleton before c ih =>
    obtain ⟨above, hcount, hlines⟩ := ih
    by_cases hc : c = '\n'
    · subst hc
      refine ⟨above ++ [before.rtakeWhile (· ≠ '\n')], ?_, fun rest l below hrest => ?_⟩
      · rw [List.count_append, hcount, List.length_append]
        rfl
      · have hfirst : lines ('\n' :: rest) = [] :: l :: below := by
          rw [← hrest]
          rfl
        rw [List.append_assoc, List.singleton_append, hlines _ _ _ hfirst,
          List.rtakeWhile_concat_neg _ _ _ (by simp)]
        simp
    · refine ⟨above, ?_, fun rest l below hrest => ?_⟩
      · rw [List.count_append, hcount, List.count_singleton, beq_false_of_ne hc]
        rfl
      · have hfirst : lines ([c] ++ rest) = ([c] ++ l) :: below :=
          lines_append (by simpa using Ne.symm hc) hrest
        rw [List.append_assoc, hlines _ _ _ hfirst,
          List.rtakeWhile_concat_pos _ _ _ (by simpa using hc), List.append_assoc]

/-- A name that is not bound is reported on the line of its reference, with a column that counts
the bytes in front of it. -/
theorem line_of_substitute_error {file text : String} {bindings : Row} {d : Diagnostic}
    (h : substitute file text bindings = .error d) :
    ∃ name seg more, d.fault = .unboundName name ∧ bindings.get? name = none ∧
      lineAt? text d.pos.line = some (seg ++ '$' :: more) ∧ d.pos.file = file ∧
        d.pos.col = byteLength seg + 1 := by
  unfold substitute at h
  split at h
  · cases h
  next offset unbound hreplace =>
  cases h
  obtain ⟨before, name, after, hpieces, rfl, hnone, rfl⟩ := replace_eq_error hreplace
  have htext : text.toList = before.flatMap (·.source opening) ++
      ('$' :: '\x7b' :: '!' :: name ++ '\x7d' :: after.flatMap (·.source opening)) := by
    rw [← source_pieces opening text.toList, hpieces]
    simp [Piece.source, opening]
  generalize before.flatMap (·.source opening) = front at htext
  have hfront : text.toList.take front.length = front := by
    rw [htext, List.take_left]
  obtain ⟨above, hcount, hlines⟩ := exists_lines_above front
  obtain ⟨l, below, hrest⟩ : ∃ l below,
      lines ('\x7b' :: '!' :: name ++ '\x7d' :: after.flatMap (·.source opening)) =
        l :: below :=
    List.exists_cons_of_ne_nil (cut_ne_nil '\n' _)
  have hlast : lines text.toList =
      above ++ (front.rtakeWhile (· ≠ '\n') ++ '$' :: l) :: below := by
    rw [htext]
    exact hlines _ _ _ (lines_append (a := ['$']) (by simp) hrest)
  have hplace := Position.ofOffset_byteLength file text front.length
  rw [hfront] at hplace
  refine ⟨String.ofList name, front.rtakeWhile (· ≠ '\n'), l, rfl, hnone, ?_, ?_, ?_⟩
  · rw [Nat.zero_add, hplace]
    simp only [Position.ofChar, hfront, hcount, lineAt?, hlast]
    rw [List.getElem?_append_right (Nat.le_refl _), Nat.sub_self]
    rfl
  · rfl
  · rw [Nat.zero_add, hplace]
    simp only [Position.ofChar, hfront]

end SurveyForms
