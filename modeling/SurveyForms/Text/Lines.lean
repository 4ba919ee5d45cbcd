/-! Texts cut at a separating character and joined again. Lines are the parts between line
breaks, where a line break is `\n` alone; a text without one is a single line. -/
namespace SurveyForms.Text

/-- Cuts a text at every occurrence of `sep`. There is always at least one part. -/
def cut (sep : Char) : List Char → List (List Char)
  | [] => [[]]
  | c :: cs =>
    if c = sep then [] :: cut sep cs
    else match cut sep cs with
      | [] => [[c]]
      | l :: ls => (c :: l) :: ls

def glue (sep : Char) : List (List Char) → List Char
  | [] => []
  | [l] => l
  | l :: ls => l ++ sep :: glue sep ls

theorem cut_ne_nil (sep : Char) (cs : List Char) : cut sep cs ≠ [] := by
  cases cs with
  | nil => simp [cut]
  | cons c cs =>
    unfold cut
    split
    · simp
    · split <;> simp

/-- Cutting and joining again gives the text back. -/
theorem glue_cut (sep : Char) (cs : List Char) : glue sep (cut sep cs) = cs := by
  induction cs with
  | nil => rfl
  | cons c cs ih =>
    unfold cut
    split
    · next h =>
      cases hl : cut sep cs with
      | nil => exact absurd hl (cut_ne_nil sep cs)
      | cons l ls => rw [hl] at ih; simp [glue, ih, h]
    · cases hl : cut sep cs with
      | nil => exact absurd hl (cut_ne_nil sep cs)
      | cons l ls =>
        rw [hl] at ih
        cases ls <;> simp_all [glue]

theorem cut_of_not_mem {sep : Char} {cs : List Char} (h : sep ∉ cs) : cut sep cs = [cs] := by
  induction cs with
  | nil => rfl
  | cons c cs ih =>
    have hc : c ≠ sep := fun e => h (by simp [e])
    have ht : sep ∉ cs := fun e => h (by simp [e])
    rw [cut, if_neg hc, ih ht]

/-- A part in front of a separator is cut off. -/
theorem cut_append {sep : Char} {cs : List Char} (h : sep ∉ cs) (rest : List Char) :
    cut sep (cs ++ sep :: rest) = cs :: cut sep rest := by
  induction cs with
  | nil => simp [cut]
  | cons c cs ih =>
    have hc : c ≠ sep := fun e => h (by simp [e])
    have ht : sep ∉ cs := fun e => h (by simp [e])
    rw [List.cons_append, cut, if_neg hc, ih ht]

/-- Joining adds no character but the separator. -/
theorem mem_of_mem_glue {sep c : Char} {parts : List (List Char)} (hc : c ≠ sep)
    (h : c ∈ glue sep parts) : ∃ p ∈ parts, c ∈ p := by
  induction parts with
  | nil => simp [glue] at h
  | cons p ps ih =>
    cases ps with
    | nil => exact ⟨p, by simp, h⟩
    | cons q qs =>
      rw [glue, List.mem_append, List.mem_cons] at h
      · rcases h with h | h | h
        · exact ⟨p, by simp, h⟩
        · exact absurd h hc
        · obtain ⟨r, hr, hcr⟩ := ih h
          exact ⟨r, by simp [hr], hcr⟩
      · simp

/-- Joining and cutting again gives the parts back, if there are any and none holds the
separator. -/
theorem cut_glue {sep : Char} {parts : List (List Char)} (hne : parts ≠ [])
    (h : ∀ p ∈ parts, sep ∉ p) : cut sep (glue sep parts) = parts := by
  induction parts with
  | nil => exact absurd rfl hne
  | cons p ps ih =>
    cases ps with
    | nil => exact cut_of_not_mem (h p (by simp))
    | cons q qs =>
      rw [glue, cut_append (h p (by simp)), ih (by simp) fun r hr => h r (by simp [hr])]
      simp

def lines (cs : List Char) : List (List Char) := cut '\n' cs

def unlines (ls : List (List Char)) : List Char := glue '\n' ls

/-- Drops the carriage return in front of every line break. -/
def unixBreaks : List Char → List Char
  | '\r' :: '\n' :: cs => '\n' :: unixBreaks cs
  | c :: cs => c :: unixBreaks cs
  | [] => []

/-- Fills a text with spaces on the right up to a width in code points. -/
def padRight (width : Nat) (s : String) : String :=
  s ++ String.ofList (List.replicate (width - s.length) ' ')

/-- Fills a text with a character on the left up to a width in code points. -/
def padLeft (fill : Char) (width : Nat) (s : String) : String :=
  String.ofList (List.replicate (width - s.length) fill) ++ s

end SurveyForms.Text
