/-! Rows of named cells. Two rows with the same cells are equal, since the cells are kept in
strictly increasing order of their keys; keys are ordered by code points. -/
namespace SurveyForms

/-- Finitely many cells, at most one for each key. -/
structure Row where
  cells : List (String × String)
  sorted : cells.Pairwise (fun a b => a.1 < b.1)

namespace Row

instance : DecidableEq Row := fun a b =>
  if h : a.cells = b.cells then isTrue (by cases a; cases b; simp_all)
  else isFalse (fun e => h (by rw [e]))

instance : Repr Row := ⟨fun r n => reprPrec r.cells n⟩

def empty : Row := ⟨[], .nil⟩

instance : EmptyCollection Row := ⟨empty⟩
instance : Inhabited Row := ⟨empty⟩

def keys (r : Row) : List String := r.cells.map (·.1)

def get? (r : Row) (key : String) : Option String := (r.cells.find? (·.1 = key)).map (·.2)

def text (r : Row) (key : String) : String := (r.get? key).getD ""

/-- Puts a cell at its place among sorted cells, over a cell of the same key. -/
def insertCell (key value : String) : List (String × String) → List (String × String)
  | [] => [(key, value)]
  | c :: cs =>
    if key < c.1 then (key, value) :: c :: cs
    else if key = c.1 then (key, value) :: cs
    else c :: insertCell key value cs

private theorem lt_of_insertCell {key value bound : String} {cs : List (String × String)}
    (hk : bound < key) (hc : ∀ c ∈ cs, bound < c.1) :
    ∀ c ∈ insertCell key value cs, bound < c.1 := by
  induction cs with
  | nil => simpa [insertCell] using hk
  | cons d cs ih =>
    have hd := hc d (by simp)
    have ht : ∀ c ∈ cs, bound < c.1 := fun c h => hc c (by simp [h])
    intro c h
    unfold insertCell at h
    split at h
    · rcases List.mem_cons.1 h with rfl | h
      · exact hk
      · exact hc c h
    · split at h
      · rcases List.mem_cons.1 h with rfl | h
        · exact hk
        · exact ht c h
      · rcases List.mem_cons.1 h with rfl | h
        · exact hd
        · exact ih ht c h

private theorem insertCell_sorted {key value : String} {cs : List (String × String)}
    (h : cs.Pairwise (fun a b => a.1 < b.1)) :
    (insertCell key value cs).Pairwise (fun a b => a.1 < b.1) := by
  induction cs with
  | nil => simp [insertCell]
  | cons d cs ih =>
    rw [List.pairwise_cons] at h
    unfold insertCell
    split
    · next hlt =>
      rw [List.pairwise_cons]
      refine ⟨fun c hc => ?_, List.pairwise_cons.2 h⟩
      rcases List.mem_cons.1 hc with rfl | hc
      · exact hlt
      · exact String.lt_trans hlt (h.1 c hc)
    · split
      · next heq =>
        rw [List.pairwise_cons]
        exact ⟨fun c hc => heq ▸ h.1 c hc, h.2⟩
      · next hlt hne =>
        rw [List.pairwise_cons]
        have hd : d.1 < key := by
          refine Decidable.byContradiction fun h => hne ?_
          exact String.le_antisymm (String.not_lt.1 h) (String.not_lt.1 hlt)
        exact ⟨lt_of_insertCell hd h.1, ih h.2⟩

def insert (r : Row) (key value : String) : Row :=
  ⟨insertCell key value r.cells, insertCell_sorted r.sorted⟩

def erase (r : Row) (key : String) : Row :=
  ⟨r.cells.filter (·.1 ≠ key), r.sorted.filter _⟩

def eraseAll (r : Row) (keys : List String) : Row := keys.foldl erase r

/-- Writes the cells of `top` over those of `r`. -/
def overlay (r top : Row) : Row := top.cells.foldl (fun r c => r.insert c.1 c.2) r

def ofList (pairs : List (String × String)) : Row :=
  pairs.foldl (fun r c => r.insert c.1 c.2) empty

theorem get?_empty (key : String) : (∅ : Row).get? key = none := rfl

private theorem find?_insertCell (key value k : String) (cs : List (String × String)) :
    ((insertCell key value cs).find? (·.1 = k)).map (·.2) =
      if k = key then some value else (cs.find? (·.1 = k)).map (·.2) := by
  induction cs with
  | nil => by_cases h : k = key <;> simp [insertCell, h, eq_comm]
  | cons c cs ih =>
    unfold insertCell
    split
    · by_cases h : k = key
      · simp [h]
      · rw [List.find?_cons_of_neg (by simpa [eq_comm] using h), if_neg h]
    · split
      · next he =>
        by_cases h : k = key
        · simp [h]
        · rw [List.find?_cons_of_neg (by simpa [eq_comm] using h), if_neg h,
            List.find?_cons_of_neg (by simpa [← he, eq_comm] using h)]
      · next he =>
        by_cases h : c.1 = k
        · rw [List.find?_cons_of_pos (by simpa using h), List.find?_cons_of_pos (by simpa using h),
            if_neg fun e => he (h.trans e).symm]
        · rw [List.find?_cons_of_neg (by simpa using h), ih,
            List.find?_cons_of_neg (by simpa using h)]

/-- An inserted cell is found under its key, and all others as before. -/
theorem get?_insert (r : Row) (key value k : String) :
    (r.insert key value).get? k = if k = key then some value else r.get? k :=
  find?_insertCell key value k r.cells

/-- An erased key has no cell, and all others are as before. -/
theorem get?_erase (r : Row) (key k : String) :
    (r.erase key).get? k = if k = key then none else r.get? k := by
  unfold get? erase
  rw [List.find?_filter]
  by_cases h : k = key
  · rw [if_pos h, Option.map_eq_none_iff, List.find?_eq_none]
    intro c _
    simp only [decide_not, Bool.not_eq_true', decide_eq_false_iff_not, decide_eq_true_eq, not_and]
    exact fun hne he => hne (he.trans h)
  · rw [if_neg h]
    refine congrArg _ (congrFun (congrArg _ (funext fun c => ?_)) _)
    by_cases hc : c.1 = k
    · simp [hc, h]
    · simp [hc]

private theorem get?_foldl_insert (k : String) {cs : List (String × String)}
    (h : cs.Pairwise (fun a b => a.1 < b.1)) (r : Row) :
    (cs.foldl (fun r c => r.insert c.1 c.2) r).get? k =
      ((cs.find? (·.1 = k)).map (·.2)).or (r.get? k) := by
  induction cs generalizing r with
  | nil => rfl
  | cons c cs ih =>
    rw [List.pairwise_cons] at h
    rw [List.foldl_cons, ih h.2, get?_insert]
    by_cases hc : c.1 = k
    · have hn : cs.find? (·.1 = k) = none := by
        rw [List.find?_eq_none]
        intro d hd
        simpa using fun e => String.lt_irrefl _ (hc ▸ e ▸ h.1 d hd)
      simp [hn, hc]
    · have hk : ¬ k = c.1 := fun e => hc e.symm
      simp [hc, hk]

/-- A cell of the upper row hides the one below it. -/
theorem get?_overlay (r top : Row) (k : String) :
    (r.overlay top).get? k = (top.get? k).or (r.get? k) :=
  get?_foldl_insert k top.sorted r

end Row
end SurveyForms
