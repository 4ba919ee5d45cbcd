import SurveyForms.Scope

/-! What a scope holds under a key after each operation on it. Relevance is the one key that adds
up; every other key is overwritten. -/
namespace SurveyForms

/-- The value of the last of the pairs that has a key. -/
def lastValue (key : String) (params : List Param) : Option String :=
  (params.reverse.find? (·.key = key)).map (·.value)

namespace Row

private theorem get?_foldl_pairs (pairs : List (String × String)) (r : Row) (k : String) :
    (pairs.foldl (fun r c => r.insert c.1 c.2) r).get? k =
      ((pairs.reverse.find? (·.1 = k)).map (·.2)).or (r.get? k) := by
  induction pairs generalizing r with
  | nil => rfl
  | cons c cs ih =>
    rw [List.foldl_cons, ih, get?_insert, List.reverse_cons, List.find?_append]
    cases hlast : cs.reverse.find? (·.1 = k) with
    | some d => simp
    | none =>
      by_cases h : c.1 = k
      · simp [h]
      · have hk : ¬ k = c.1 := fun e => h e.symm
        simp [h, hk]

/-- Of several pairs with one key the last counts. -/
theorem get?_ofList (pairs : List (String × String)) (k : String) :
    (ofList pairs).get? k = (pairs.reverse.find? (·.1 = k)).map (·.2) := by
  have h := get?_foldl_pairs pairs empty k
  rwa [show empty.get? k = none from rfl, Option.or_none] at h

theorem get?_eraseAll (r : Row) (keys : List String) (k : String) :
    (r.eraseAll keys).get? k = if k ∈ keys then none else r.get? k := by
  unfold eraseAll
  induction keys generalizing r with
  | nil => simp
  | cons key keys ih =>
    rw [List.foldl_cons, ih, get?_erase]
    by_cases hk : k ∈ keys <;> by_cases he : k = key <;> simp [hk, he]

end Row

namespace Scope

/-- Every key but relevance is overwritten by the inner scope. -/
theorem get?_merge_of_ne {k : String} (hk : k ≠ relevanceKey) (outer inner : Scope) :
    (outer.merge inner).get? k = (inner.get? k).or (outer.get? k) := by
  unfold merge
  split
  · rw [Row.get?_insert, if_neg hk, Row.get?_overlay]
  · rw [Row.get?_overlay]

/-- Relevance of both scopes is kept. -/
theorem get?_merge_relevance (outer inner : Scope) :
    (outer.merge inner).get? relevanceKey =
      match outer.get? relevanceKey, inner.get? relevanceKey with
      | some a, some b => some (both a b)
      | none, b => b
      | a, none => a := by
  unfold merge
  cases ho : outer.get? relevanceKey with
  | none =>
    simp only [Row.get?_overlay, ho, Option.or_none]
  | some a =>
    cases hi : inner.get? relevanceKey with
    | none => simp [Row.get?_overlay, ho, hi]
    | some b => simp [Row.get?_insert]

private theorem get?_ofList_params (params : List Param) (k : String) :
    (Row.ofList (params.map fun p => (p.key, p.value))).get? k = lastValue k params := by
  rw [Row.get?_ofList, ← List.map_reverse, List.find?_map, Option.map_map]
  rfl

/-- The pairs of a statement set relevance by an `if` pair or, failing that, a pair of its own
name. -/
theorem get?_ofParams_relevance (params : List Param) :
    (ofParams params).get? relevanceKey =
      (lastValue "if" params).or (lastValue relevanceKey params) := by
  unfold ofParams renameIf
  rw [get?_ofList_params]
  cases h : lastValue "if" params with
  | none => simp only [get?_ofList_params, Option.none_or]
  | some condition => simp [Row.get?_erase, Row.get?_insert, relevanceKey]

theorem get?_ofParams_of_ne {k : String} (hr : k ≠ relevanceKey) (hi : k ≠ "if")
    (params : List Param) : (ofParams params).get? k = lastValue k params := by
  unfold ofParams renameIf
  rw [get?_ofList_params]
  cases h : lastValue "if" params with
  | none => simp only [get?_ofList_params]
  | some condition => simp only [Row.get?_erase, Row.get?_insert, if_neg hi, if_neg hr,
      get?_ofList_params]

end Scope
end SurveyForms
