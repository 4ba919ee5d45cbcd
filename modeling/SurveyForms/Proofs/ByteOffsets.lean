import Mathlib.Data.Prod.Lex
import Mathlib.Data.Set.Function
import SurveyForms.Proofs.TextPlaces

/-! Places with columns in bytes. Main result: the byte offsets of a text, its end included, and the
places on its lines are in bijection, and a later offset has a later place. -/
namespace SurveyForms

open Source Text

theorem byteLength_toList (s : String) : byteLength s.toList = s.utf8ByteSize := by
  have hsize : s.utf8ByteSize = s.toList.utf8Encode.size := by
    rw [← String.toByteArray_ofList, String.ofList_toList]
    rfl
  rw [hsize, List.utf8Encode, List.size_toByteArray, length_bytes]

namespace Position

/-- The bytes of some lines, each with a line break behind it. -/
def bytesOf : List (List Char) → Nat
  | [] => 0
  | line :: ls => byteLength line + 1 + bytesOf ls

theorem bytesOf_append (as bs : List (List Char)) :
    bytesOf (as ++ bs) = bytesOf as + bytesOf bs := by
  induction as with
  | nil => exact (Nat.zero_add _).symm
  | cons l as ih =>
    rw [List.cons_append, bytesOf, bytesOf, ih]
    exact (Nat.add_assoc _ _ _).symm

/-- The bytes of the first `n` lines of a text, line breaks included. -/
def bytesAbove (src : String) (n : Nat) : Nat := bytesOf ((lines src.toList).take n)

def offsetIn (src : String) (p : Position) : Nat := bytesAbove src (p.line - 1) + (p.col - 1)

/-- A place at a byte of a line, or right behind the last one. -/
def AtByteOf (src : String) (p : Position) : Prop :=
  ∃ line ∈ lineAt? src p.line, 1 ≤ p.col ∧ p.col - 1 ≤ byteLength line

private theorem break_not_mem_bytes {l : List Char} (h : '\n' ∉ l) :
    10 ∉ l.flatMap String.utf8EncodeChar := by
  rw [← List.count_eq_zero, count_break]
  exact List.count_eq_zero_of_not_mem h

/-- Bytes with no line break among them are all behind the last one. -/
private theorem takeWhile_reverse_of_not_mem {bs : List UInt8} (h : 10 ∉ bs) :
    bs.reverse.takeWhile (· ≠ 10) = bs.reverse := by
  refine List.takeWhile_eq_self_iff.mpr fun b hb => decide_eq_true ?_
  exact ne_of_mem_of_not_mem (List.mem_reverse.mp hb) h

/-- What stands in front of a line break is not behind the last one. -/
private theorem takeWhile_reverse_behind (front bs : List UInt8) :
    (front ++ 10 :: bs).reverse.takeWhile (· ≠ 10) = bs.reverse.takeWhile (· ≠ 10) := by
  have hbreak : ([10] ++ front.reverse).takeWhile (· ≠ 10) = [] := rfl
  rw [List.reverse_append, List.reverse_cons, List.append_assoc, List.takeWhile_append, hbreak,
    List.append_nil]
  split
  · next hall => exact ((List.takeWhile_prefix _).eq_of_length hall).symm
  · rfl

private theorem take_bytes_of_le {l tail : List Char} {off : Nat} (h : off ≤ byteLength l) :
    ((l ++ tail).flatMap String.utf8EncodeChar).take off =
      (l.flatMap String.utf8EncodeChar).take off := by
  rw [List.flatMap_append, List.take_append_of_le_length]
  rwa [length_bytes]

private theorem take_bytes_behind (l tail : List Char) (off : Nat) :
    ((l ++ '\n' :: tail).flatMap String.utf8EncodeChar).take (byteLength l + (off + 1)) =
      l.flatMap String.utf8EncodeChar ++ 10 :: (tail.flatMap String.utf8EncodeChar).take off := by
  rw [List.flatMap_append, List.flatMap_cons, ← length_bytes l, List.take_length_add_append]
  rfl

/-- Some bytes of a text end on the line whose number they tell by their line breaks, and the line
has at least as many bytes as stand behind the last break. -/
private theorem exists_line_of_take {ls : List (List Char)} (hne : ls ≠ [])
    (hbreak : ∀ l ∈ ls, '\n' ∉ l) {off : Nat} (hoff : off ≤ byteLength (unlines ls)) :
    ∃ above line below, ls = above ++ line :: below ∧
      let before := ((unlines ls).flatMap String.utf8EncodeChar).take off
      let behind := (before.reverse.takeWhile (· ≠ 10)).length
      before.count 10 = above.length ∧ behind ≤ byteLength line ∧
        bytesOf above + behind = off := by
  induction ls generalizing off with
  | nil => exact absurd rfl hne
  | cons l ls ih =>
    obtain ⟨hl, hls⟩ := List.forall_mem_cons.mp hbreak
    have hbytes := break_not_mem_bytes hl
    by_cases hfirst : off ≤ byteLength l
    · obtain ⟨tail, htail⟩ : ∃ tail, unlines (l :: ls) = l ++ tail := by
        cases ls with
        | nil => exact ⟨[], (List.append_nil l).symm⟩
        | cons l' ls => exact ⟨_, rfl⟩
      have hmem : 10 ∉ (l.flatMap String.utf8EncodeChar).take off :=
        fun h => hbytes (List.mem_of_mem_take h)
      refine ⟨[], l, ls, rfl, ?_⟩
      simp only [htail, take_bytes_of_le hfirst, takeWhile_reverse_of_not_mem hmem,
        List.length_reverse, List.length_take, length_bytes, Nat.min_eq_left hfirst]
      exact ⟨List.count_eq_zero_of_not_mem hmem, hfirst, Nat.zero_add off⟩
    · cases ls with
      | nil => exact absurd hoff hfirst
      | cons l' ls =>
        have hsplit : unlines (l :: l' :: ls) = l ++ '\n' :: unlines (l' :: ls) := rfl
        obtain ⟨rest, rfl⟩ := Nat.exists_eq_add_of_lt (Nat.lt_of_not_le hfirst)
        rw [hsplit, byteLength_append, byteLength, show '\n'.utf8Size = 1 from rfl] at hoff
        have hrest : rest ≤ byteLength (unlines (l' :: ls)) := by omega
        obtain ⟨above, line, below, hlines, hcount, hcol, hsum⟩ := ih (by simp) hls hrest
        refine ⟨l :: above, line, below, by rw [hlines, List.cons_append], ?_⟩
        rw [hsplit, Nat.add_assoc, take_bytes_behind]
        simp only [takeWhile_reverse_behind, List.count_append, List.count_cons_self,
          List.count_eq_zero_of_not_mem hbytes, List.length_cons, bytesOf]
        exact ⟨by omega, hcol, by omega⟩

/-- The place of an offset is on a line of the text, with as many bytes in front of it. -/
theorem ofOffset_atByteOf (file src : String) {off : Nat} (hoff : off ≤ src.utf8ByteSize) :
    (ofOffset file src off).AtByteOf src ∧ (ofOffset file src off).offsetIn src = off := by
  have htext : unlines (lines src.toList) = src.toList := glue_cut '\n' src.toList
  have hne : lines src.toList ≠ [] := cut_ne_nil '\n' _
  have hin : off ≤ byteLength (unlines (lines src.toList)) := by rwa [htext, byteLength_toList]
  obtain ⟨above, line, below, hlines, hcount, hcol, hsum⟩ :=
    exists_line_of_take hne (break_not_mem_lines _) hin
  rw [htext, ← bytes] at hcount hcol hsum
  constructor
  · refine ⟨line, ?_, Nat.le_add_left 1 _, hcol⟩
    simp only [ofOffset, lineAt?, hcount, hlines]
    rw [Option.mem_def, List.getElem?_append_right (Nat.le_refl _), Nat.sub_self]
    rfl
  · simp only [offsetIn, ofOffset, hcount, bytesAbove, Nat.add_sub_cancel, hlines,
      List.take_left]
    exact hsum

/-- An offset behind the end of a text stands for the end. -/
theorem ofOffset_of_le (file src : String) {off : Nat} (hoff : src.utf8ByteSize ≤ off) :
    ofOffset file src off = ofOffset file src src.utf8ByteSize := by
  have hlength : (bytes src).length = src.utf8ByteSize := by
    rw [bytes, length_bytes, byteLength_toList]
  have htake {n : Nat} (hn : src.utf8ByteSize ≤ n) : (bytes src).take n = bytes src :=
    List.take_of_length_le (hlength ▸ hn)
  simp only [ofOffset, htake hoff, htake (Nat.le_refl _)]

section Order
variable {src : String} {p q : Position}

theorem bytesAbove_le {m n : Nat} (h : m ≤ n) : bytesAbove src m ≤ bytesAbove src n := by
  obtain ⟨k, rfl⟩ := Nat.exists_eq_add_of_le h
  rw [bytesAbove, bytesAbove, List.take_add, bytesOf_append]
  exact Nat.le_add_right _ _

/-- The bytes of a line and its break come between those above it and those above the next. -/
theorem bytesAbove_line {n : Nat} {line : List Char} (h : lineAt? src n = some line) :
    bytesAbove src n = bytesAbove src (n - 1) + (byteLength line + 1) := by
  cases n with
  | zero => cases h
  | succ n =>
    have hline : (lines src.toList)[n]? = some line := h
    rw [bytesAbove, List.take_add_one, hline, bytesOf_append]
    rfl

/-- Everything in front of a place stands above the line below. -/
theorem AtByteOf.offsetIn_lt (hp : p.AtByteOf src) : p.offsetIn src < bytesAbove src p.line := by
  obtain ⟨line, hline, _, hcol⟩ := hp
  rw [offsetIn, bytesAbove_line hline]
  omega

/-- All lines of a text have one byte more than the text, whose last line has no break. -/
theorem bytesAbove_length (src : String) :
    bytesAbove src (lines src.toList).length = src.utf8ByteSize + 1 := by
  have hglue {ls : List (List Char)} (hne : ls ≠ []) :
      bytesOf ls = byteLength (unlines ls) + 1 := by
    induction ls with
    | nil => exact absurd rfl hne
    | cons l ls ih =>
      cases ls with
      | nil => rfl
      | cons l' ls =>
        have hsplit : unlines (l :: l' :: ls) = l ++ '\n' :: unlines (l' :: ls) := rfl
        rw [bytesOf, ih (by simp), hsplit, byteLength_append, byteLength,
          show '\n'.utf8Size = 1 from rfl]
        omega
  have htext : unlines (lines src.toList) = src.toList := glue_cut '\n' src.toList
  rw [bytesAbove, List.take_length]
  have hne : lines src.toList ≠ [] := cut_ne_nil '\n' _
  have hsum := hglue hne
  rwa [htext, byteLength_toList] at hsum

/-- A place on a line of a text has no more bytes in front of it than the text has. -/
theorem AtByteOf.offsetIn_le (hp : p.AtByteOf src) : p.offsetIn src ≤ src.utf8ByteSize := by
  have hlt := hp.offsetIn_lt
  have hline : p.line ≤ (lines src.toList).length := by
    obtain ⟨line, hline, _⟩ := hp
    cases hn : p.line with
    | zero => exact Nat.zero_le _
    | succ n =>
      rw [hn] at hline
      exact (List.getElem?_eq_some_iff.mp hline).1
  have habove : bytesAbove src p.line ≤ _ := bytesAbove_le hline
  rw [bytesAbove_length] at habove
  omega

/-- Of two places the earlier one, by its line and then by its column, has fewer bytes in front. -/
theorem AtByteOf.offsetIn_lt_offsetIn (hp : p.AtByteOf src)
    (h : toLex (p.line, p.col) < toLex (q.line, q.col)) : p.offsetIn src < q.offsetIn src := by
  rcases Prod.Lex.toLex_lt_toLex.mp h with hline | ⟨hline, hcol⟩
  · have hlt := hp.offsetIn_lt
    have habove : bytesAbove src p.line ≤ bytesAbove src (q.line - 1) :=
      bytesAbove_le (Nat.le_sub_one_of_lt hline)
    exact Nat.lt_of_lt_of_le hlt (habove.trans (Nat.le_add_right _ _))
  · obtain ⟨_, _, hpos, _⟩ := hp
    simp only at hline hcol
    rw [offsetIn, offsetIn, hline]
    omega

theorem AtByteOf.lt_iff (hp : p.AtByteOf src) (hq : q.AtByteOf src) :
    toLex (p.line, p.col) < toLex (q.line, q.col) ↔ p.offsetIn src < q.offsetIn src := by
  refine ⟨hp.offsetIn_lt_offsetIn, fun h => ?_⟩
  rcases lt_trichotomy (toLex (p.line, p.col)) (toLex (q.line, q.col)) with hlt | heq | hgt
  · exact hlt
  · obtain ⟨hline, hcol⟩ : p.line = q.line ∧ p.col = q.col := Prod.mk.inj (toLex_inj.mp heq)
    rw [offsetIn, offsetIn, hline, hcol] at h
    exact absurd h (Nat.lt_irrefl _)
  · exact absurd h (Nat.lt_asymm (hq.offsetIn_lt_offsetIn hgt))

/-- The bytes in front tell a place of a file. -/
theorem AtByteOf.eq_of_offsetIn (hp : p.AtByteOf src) (hq : q.AtByteOf src)
    (hfile : p.file = q.file) (h : p.offsetIn src = q.offsetIn src) : p = q := by
  have hplace : toLex (p.line, p.col) = toLex (q.line, q.col) := by
    refine le_antisymm (not_lt.mp fun hlt => ?_) (not_lt.mp fun hlt => ?_)
    · exact absurd ((hq.lt_iff hp).mp hlt) (by omega)
    · exact absurd ((hp.lt_iff hq).mp hlt) (by omega)
  obtain ⟨hline, hcol⟩ : p.line = q.line ∧ p.col = q.col := Prod.mk.inj (toLex_inj.mp hplace)
  cases p
  cases q
  cases hfile
  cases hline
  cases hcol
  rfl

end Order

/-- Offsets and places. The place of an offset is on a line of the text; the bytes of the lines
above it and those in front of it on its line are as many as the offset says. Each place on a line
is that of exactly one offset, later offsets have later places, and an offset behind the end stands
for the end. -/
theorem ofOffset_bijection (file src : String) :
    (∀ off ≤ src.utf8ByteSize, let p := ofOffset file src off
      1 ≤ p.line ∧ 1 ≤ p.col ∧ bytesAbove src (p.line - 1) + (p.col - 1) = off ∧
        ∃ line ∈ lineAt? src p.line, p.col - 1 ≤ byteLength line) ∧
    Set.BijOn (ofOffset file src) (Set.Iic src.utf8ByteSize)
      {p | p.file = file ∧ p.AtByteOf src} ∧
    StrictMonoOn (fun off => toLex ((ofOffset file src off).line, (ofOffset file src off).col))
      (Set.Iic src.utf8ByteSize) ∧
    ∀ off, src.utf8ByteSize ≤ off →
      ofOffset file src off = ofOffset file src src.utf8ByteSize := by
  refine ⟨fun off hoff => ?_, ⟨fun off hoff => ?_, fun off hoff off' hoff' heq => ?_,
    fun p hp => ?_⟩, fun off hoff off' hoff' hlt => ?_, fun off => ofOffset_of_le file src⟩
  · obtain ⟨⟨line, hline, hpos, hcol⟩, hoffset⟩ := ofOffset_atByteOf file src hoff
    exact ⟨Nat.le_add_left 1 _, hpos, hoffset, line, hline, hcol⟩
  · exact ⟨rfl, (ofOffset_atByteOf file src hoff).1⟩
  · have hleft := (ofOffset_atByteOf file src hoff).2
    have hright := (ofOffset_atByteOf file src hoff').2
    rw [heq] at hleft
    exact hleft.symm.trans hright
  · obtain ⟨hfile, hat⟩ := hp
    obtain ⟨hat', hoffset⟩ := ofOffset_atByteOf file src hat.offsetIn_le
    exact ⟨p.offsetIn src, hat.offsetIn_le, hat'.eq_of_offsetIn hat hfile.symm hoffset⟩
  · obtain ⟨hat, hoffset⟩ := ofOffset_atByteOf file src hoff
    obtain ⟨hat', hoffset'⟩ := ofOffset_atByteOf file src hoff'
    refine (hat.lt_iff hat').mpr ?_
    rwa [hoffset, hoffset']

/-- The second byte of a character, below an empty line. -/
theorem ofOffset_inside_character :
    let src := "one\n\n3ü"
    let p : Position := ⟨"f", 3, 3⟩
    7 ≤ src.utf8ByteSize ∧ ofOffset "f" src 7 = p ∧ bytesAbove src 2 + 2 = 7 ∧
      (∃ line ∈ lineAt? src 3, 2 ≤ byteLength line) ∧
        ∀ off ≤ src.utf8ByteSize, ofOffset "f" src off = p → off = 7 := by
  intro src p
  have hin : 7 ≤ src.utf8ByteSize := by decide +kernel
  have hplace : ofOffset "f" src 7 = p := by decide +kernel
  obtain ⟨hoffsets, ⟨_, hinj, _⟩, _⟩ := ofOffset_bijection "f" src
  obtain ⟨_, _, hsum, hline⟩ := hoffsets 7 hin
  rw [hplace] at hsum hline
  exact ⟨hin, hplace, hsum, hline, fun off hoff h => hinj hoff hin (h.trans hplace.symm)⟩

end Position
end SurveyForms
