import Mathlib.Data.List.Basic
import SurveyForms.Registry.Stamp

/-! Numbers written in fields of a fixed width. Main results: reading gives the numbers back, and
the texts are ordered as the numbers are, from the first field on. -/
namespace SurveyForms.Stamp

/-- So many last decimal digits of a number. -/
def decimals : Nat → Nat → List Char
  | 0, _ => []
  | width + 1, n => decimals width (n / 10) ++ [Nat.digitChar (n % 10)]

/-- Nothing is left of a number behind so many digits. -/
def Fits : Nat → Nat → Prop
  | 0, n => n = 0
  | width + 1, n => Fits width (n / 10)

theorem fits_two {n : Nat} (h : n < 100) : Fits 2 n := by
  simp only [Fits]
  omega

theorem fits_four {n : Nat} (h : n < 10000) : Fits 4 n := by
  simp only [Fits]
  omega

/-- Numbers written in fields, with the marks between them. -/
inductive Written : List StampField → List Nat → List Char → Prop
  | nil : Written [] [] []
  | number {width n : Nat} {shown : String} {fs : List StampField} {ns : List Nat}
      {cs : List Char} (hn : Fits width n) (hrest : Written fs ns cs) :
      Written (.number width shown :: fs) (n :: ns) (decimals width n ++ cs)
  | mark {c : Char} {shown : String} {fs : List StampField} {ns : List Nat} {cs : List Char}
      (hrest : Written fs ns cs) : Written (.mark c shown :: fs) ns (c :: cs)

@[simp] theorem length_decimals (width n : Nat) : (decimals width n).length = width := by
  induction width generalizing n with
  | zero => rfl
  | succ width ih => rw [decimals, List.length_append, ih, List.length_singleton]

theorem isDigit_of_mem_decimals {width n : Nat} {c : Char} (h : c ∈ decimals width n) :
    c.isDigit = true := by
  induction width generalizing n with
  | zero => simp [decimals] at h
  | succ width ih =>
    rcases List.mem_append.mp h with h | h
    · exact ih h
    · rw [List.mem_singleton.mp h, Nat.isDigit_digitChar]
      exact decide_eq_true (Nat.mod_lt n (by decide))

theorem numeral_concat (cs : List Char) (c : Char) :
    numeral (cs ++ [c]) = 10 * numeral cs + (c.toNat - '0'.toNat) := by
  rw [numeral, List.foldl_append]
  rfl

theorem digit_eq {n : Nat} (h : n < 10) : (Nat.digitChar n).toNat - '0'.toNat = n := by
  rw [Nat.toNat_digitChar_of_lt_ten h]
  exact Nat.add_sub_cancel_left 48 n

theorem numeral_decimals {width n : Nat} (h : Fits width n) : numeral (decimals width n) = n := by
  induction width generalizing n with
  | zero =>
    obtain rfl : n = 0 := h
    rfl
  | succ width ih =>
    rw [decimals, numeral_concat, ih h, digit_eq (Nat.mod_lt n (by decide))]
    omega

/-- The order of texts with front parts of one length. -/
theorem append_lt_append_iff {as bs cs ds : List Char} (h : as.length = bs.length) :
    as ++ cs < bs ++ ds ↔ as < bs ∨ as = bs ∧ cs < ds := by
  induction as generalizing bs with
  | nil =>
    obtain rfl : bs = [] := List.eq_nil_of_length_eq_zero h.symm
    simp
  | cons a as ih =>
    cases bs with
    | nil => cases h
    | cons b bs =>
      rw [List.cons_append, List.cons_append, List.cons_lt_cons_iff, List.cons_lt_cons_iff,
        ih (Nat.succ.inj h), List.cons.injEq]
      tauto

theorem digitChar_lt_iff {m n : Nat} (hm : m < 10) (hn : n < 10) :
    Nat.digitChar m < Nat.digitChar n ↔ m < n := by
  have hcodes : Nat.digitChar m < Nat.digitChar n ↔
      (Nat.digitChar m).toNat < (Nat.digitChar n).toNat := Iff.rfl
  rw [hcodes, Nat.toNat_digitChar_of_lt_ten hm, Nat.toNat_digitChar_of_lt_ten hn]
  omega

theorem decimals_inj {width m n : Nat} (hm : Fits width m) (hn : Fits width n) :
    decimals width m = decimals width n ↔ m = n := by
  refine ⟨fun h => ?_, congrArg _⟩
  rw [← numeral_decimals hm, h, numeral_decimals hn]

/-- Digits with zeros in front are ordered as the numbers. -/
theorem decimals_lt_iff {width m n : Nat} (hm : Fits width m) (hn : Fits width n) :
    decimals width m < decimals width n ↔ m < n := by
  induction width generalizing m n with
  | zero =>
    obtain rfl : m = 0 := hm
    obtain rfl : n = 0 := hn
    simp
  | succ width ih =>
    have hlast : [Nat.digitChar (m % 10)] < [Nat.digitChar (n % 10)] ↔ m % 10 < n % 10 := by
      rw [List.cons_lt_cons_iff, digitChar_lt_iff (Nat.mod_lt m (by decide))
        (Nat.mod_lt n (by decide))]
      simp
    have hm' : Fits width (m / 10) := hm
    have hn' : Fits width (n / 10) := hn
    rw [decimals, decimals, append_lt_append_iff (by simp), ih hm' hn', decimals_inj hm' hn', hlast]
    omega

theorem decimals_zero (width : Nat) : decimals width 0 = List.replicate width '0' := by
  induction width with
  | zero => rfl
  | succ width ih =>
    rw [decimals, Nat.zero_div, ih, List.replicate_succ']
    rfl

/-- A number has no more digits than the field, and zeros stand in front of them. -/
theorem replicate_append_toDigits {width n : Nat} (hwidth : 0 < width) (h : Fits width n) :
    List.replicate (width - (Nat.toDigits 10 n).length) '0' ++ Nat.toDigits 10 n =
      decimals width n := by
  induction width generalizing n with
  | zero => cases hwidth
  | succ width ih =>
    rw [Nat.toDigits_eq_if (by decide), decimals]
    by_cases hsmall : n < 10
    · rw [if_pos hsmall, Nat.div_eq_of_lt hsmall, Nat.mod_eq_of_lt hsmall, decimals_zero]
      rfl
    · have hfield : 0 < width := by
        by_contra hnone
        obtain rfl : width = 0 := by omega
        have hfront : n / 10 = 0 := h
        omega
      rw [if_neg hsmall, ← ih hfield h, List.length_append, List.length_singleton,
        Nat.add_sub_add_right, List.append_assoc]

theorem toList_digits {width n : Nat} (hwidth : 0 < width) (h : Fits width n) :
    (CivilTime.digits width n).toList = decimals width n := by
  rw [CivilTime.digits, Text.padLeft, String.toList_append, String.toList_ofList,
    ← String.length_toList, Nat.toString_eq_repr, Nat.toList_repr,
    replicate_append_toDigits hwidth h]

namespace Written

variable {fs : List StampField} {ns ms : List Nat} {cs ds : List Char}

/-- Reading gives the numbers back. -/
theorem numbers_eq (h : Written fs ns cs) : numbers fs cs = .ok ns := by
  induction h with
  | nil => rfl
  | @number width n shown fs ns cs hn _ ih =>
    have htake : (decimals width n ++ cs).take width = decimals width n :=
      List.take_left' (length_decimals width n)
    have hdrop : (decimals width n ++ cs).drop width = cs :=
      List.drop_left' (length_decimals width n)
    have hdigits : (decimals width n).all Char.isDigit :=
      List.all_eq_true.mpr fun _ hc => isDigit_of_mem_decimals hc
    rw [numbers, htake, hdrop, if_pos ⟨length_decimals width n, hdigits⟩, ih, numeral_decimals hn]
    rfl
  | mark _ ih => rw [numbers, List.head?_cons, if_pos rfl, List.tail_cons, ih]

/-- The first numbers that differ decide about the order of the texts. -/
theorem lt_iff (h : Written fs ns cs) (h' : Written fs ms ds) : cs < ds ↔ ns < ms := by
  induction h generalizing ms ds with
  | nil => cases h'; simp
  | number hn _ ih =>
    cases h' with
    | number hm hrest =>
      rw [append_lt_append_iff (by simp), List.cons_lt_cons_iff, decimals_lt_iff hn hm,
        decimals_inj hn hm, ih hrest]
  | mark _ ih =>
    cases h' with
    | mark hrest =>
      rw [List.cons_lt_cons_iff, ih hrest]
      simp

end Written
end SurveyForms.Stamp
