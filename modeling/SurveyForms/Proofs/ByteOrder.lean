import Mathlib.Tactic.SplitIfs
import SurveyForms.Diagnostic

/-! Texts are ordered by code points in the same way as by the bytes that stand for them. -/
namespace SurveyForms.Text

/-- These bytes come before those, whatever follows. -/
def Before (a b : List UInt8) : Prop := ∀ xs ys, a ++ xs < b ++ ys

theorem ofNat_lt_ofNat {m n : Nat} (h : m < n) (hn : n < 256) : UInt8.ofNat m < UInt8.ofNat n :=
  (UInt8.ofNat_lt_iff_lt (Nat.lt_trans h hn) hn).mpr h

/-- The first byte decides if it is different. -/
theorem before_lead {m n : Nat} (h : m < n) (hn : n < 256) (a b : List UInt8) :
    Before (UInt8.ofNat m :: a) (UInt8.ofNat n :: b) := by
  intro xs ys
  rw [List.cons_append, List.cons_append, List.cons_lt_cons_iff]
  exact .inl (ofNat_lt_ofNat h hn)

/-- Numbers are compared digit by digit: the last six bits decide if the others are the same. -/
theorem before_snoc {v w : Nat} {a b : List UInt8} (h : v < w)
    (hless : v / 64 < w / 64 → Before a b) (hsame : v / 64 = w / 64 → a = b) :
    Before (a ++ [UInt8.ofNat (v % 64 + 128)]) (b ++ [UInt8.ofNat (w % 64 + 128)]) := by
  intro xs ys
  rw [List.append_assoc, List.append_assoc]
  rcases Nat.lt_or_eq_of_le (Nat.div_le_div_right (c := 64) (Nat.le_of_lt h)) with hlt | heq
  · exact hless hlt _ _
  · rw [hsame heq]
    refine List.append_left_lt ?_
    rw [List.cons_append, List.cons_append, List.cons_lt_cons_iff]
    exact .inl (ofNat_lt_ofNat (by omega) (by omega))

/-- A character with a smaller code point comes first by bytes. -/
theorem before_utf8EncodeChar {c d : Char} (h : c < d) :
    Before (String.utf8EncodeChar c) (String.utf8EncodeChar d) := by
  have hval : c.val.toNat < d.val.toNat := h
  have hbound : d.val.toNat < 1114112 := by
    have := d.valid
    simp only [UInt32.isValidChar, Nat.isValidChar] at this
    omega
  unfold String.utf8EncodeChar
  simp only
  generalize c.val.toNat = v at hval
  generalize d.val.toNat = w at hval hbound
  simp only [show ∀ n, n / 4096 = n / 64 / 64 by omega,
    show ∀ n, n / 262144 = n / 64 / 64 / 64 by omega]
  -- the first byte tells how many there are, and more bytes stand for larger code points
  split
  · split_ifs <;> exact before_lead (by omega) (by omega) _ _
  split
  · split_ifs
    · omega
    · refine before_snoc (a := [_]) (b := [_]) hval (fun hlt => ?_) (fun heq => by rw [heq])
      exact before_lead (by omega) (by omega) _ _
    · exact before_lead (by omega) (by omega) _ _
    · exact before_lead (by omega) (by omega) _ _
  split
  · split_ifs
    · omega
    · omega
    · refine before_snoc (a := [_, _]) (b := [_, _]) hval (fun hlt => ?_) (fun heq => by rw [heq])
      refine before_snoc (a := [_]) (b := [_]) hlt (fun hlt => ?_) (fun heq => by rw [heq])
      exact before_lead (by omega) (by omega) _ _
    · exact before_lead (by omega) (by omega) _ _
  · split_ifs
    · omega
    · omega
    · omega
    · refine before_snoc (a := [_, _, _]) (b := [_, _, _]) hval (fun hlt => ?_)
        (fun heq => by rw [heq])
      refine before_snoc (a := [_, _]) (b := [_, _]) hlt (fun hlt => ?_) (fun heq => by rw [heq])
      refine before_snoc (a := [_]) (b := [_]) hlt (fun hlt => ?_) (fun heq => by rw [heq])
      exact before_lead (by omega) (by omega) _ _

theorem flatMap_utf8EncodeChar_lt {cs ds : List Char} (h : cs < ds) :
    cs.flatMap String.utf8EncodeChar < ds.flatMap String.utf8EncodeChar := by
  induction cs generalizing ds with
  | nil =>
    cases ds with
    | nil => cases h
    | cons d ds =>
      obtain ⟨b, bs, hb⟩ := List.exists_cons_of_ne_nil (String.utf8EncodeChar_ne_nil (c := d))
      rw [List.flatMap_cons, hb]
      exact List.nil_lt_cons _ _
  | cons c cs ih =>
    cases ds with
    | nil => cases h
    | cons d ds =>
      rw [List.flatMap_cons, List.flatMap_cons]
      rcases List.cons_lt_cons_iff.mp h with hlt | ⟨rfl, hlt⟩
      · exact before_utf8EncodeChar hlt _ _
      · exact List.append_left_lt (ih hlt)

/-- Texts are ordered as their bytes are. -/
theorem bytes_lt_iff {s t : String} : Position.bytes s < Position.bytes t ↔ s < t := by
  have hlt {s t : String} (h : s < t) : Position.bytes s < Position.bytes t :=
    flatMap_utf8EncodeChar_lt (String.lt_iff.mp h)
  refine ⟨fun h => Decidable.byContradiction fun hnot => ?_, hlt⟩
  rcases Decidable.em (t < s) with hgt | hle
  · exact List.lt_asymm h (hlt hgt)
  · rw [String.le_antisymm (String.not_lt.mp hle) (String.not_lt.mp hnot)] at h
    exact List.lt_irrefl _ h

end SurveyForms.Text
