import Mathlib.Algebra.BigOperators.Intervals
import Mathlib.Algebra.Order.BigOperators.Group.Finset
import Mathlib.Tactic.IntervalCases
import SurveyForms.Calendar
import SurveyForms.Registry.Stamp

/-! The Gregorian calendar by the lengths of its years and months, carried on in both directions.
Main results: the conversion from seconds gives the one date and time of day that this calendar has
for them, and times come in the order of their numbers, from the year down. -/
namespace SurveyForms.CivilTime

/-- Every fourth year is one, but of the full centuries only every fourth. -/
def IsLeapYear (year : Int) : Prop := 4 ∣ year ∧ (¬ 100 ∣ year ∨ 400 ∣ year)

instance (year : Int) : Decidable (IsLeapYear year) :=
  inferInstanceAs (Decidable (4 ∣ year ∧ (¬ 100 ∣ year ∨ 400 ∣ year)))

def monthDays (year : Int) : Nat → Nat
  | 2 => if IsLeapYear year then 29 else 28
  | 4 | 6 | 9 | 11 => 30
  | _ => 31

def yearDays (year : Int) : Nat := ∑ month ∈ Finset.Icc 1 12, monthDays year month

def daysToYear (year : Int) : Int :=
  ∑ i ∈ Finset.range (year - 1970).toNat, (yearDays (1970 + i) : Int) -
    ∑ i ∈ Finset.range (1970 - year).toNat, (yearDays (1969 - i) : Int)

def daysToMonth (year : Int) (month : Nat) : Nat := ∑ m ∈ Finset.Ico 1 month, monthDays year m

def dayNumber (year : Int) (month day : Nat) : Int :=
  daysToYear year + daysToMonth year month + day - 1

theorem daysToMonth_succ {month : Nat} (h : 1 ≤ month) (year : Int) :
    daysToMonth year (month + 1) = daysToMonth year month + monthDays year month :=
  Finset.sum_Ico_succ_top h _

theorem daysToMonth_add_le (year : Int) {month month' : Nat} (hlow : 1 ≤ month)
    (h : month < month') :
    daysToMonth year month + monthDays year month ≤ daysToMonth year month' := by
  rw [← daysToMonth_succ hlow]
  exact Finset.sum_le_sum_of_subset (Finset.Ico_subset_Ico_right h)

/-- The months from March on follow one line, up to the last of the year. -/
theorem monthDays_fromMarch {m : Nat} (h : m ≤ 9) (year : Int) :
    (153 * m + 2) / 5 + monthDays year (m + 3) = (153 * (m + 1) + 2) / 5 := by
  interval_cases m <;> rfl

theorem daysToMonth_fromMarch {m : Nat} (h : m ≤ 9) (year : Int) :
    daysToMonth year (m + 3) = (153 * m + 2) / 5 + if IsLeapYear year then 60 else 59 := by
  induction m with
  | zero =>
    rw [daysToMonth_succ (by decide), daysToMonth_succ (by decide)]
    by_cases h : IsLeapYear year <;> simp [daysToMonth, monthDays, h]
  | succ m ih =>
    rw [Nat.add_right_comm, daysToMonth_succ (by omega), ih (by omega), Nat.add_right_comm,
      monthDays_fromMarch (by omega)]

theorem yearDays_eq (year : Int) : yearDays year = if IsLeapYear year then 366 else 365 := by
  have hmonths : yearDays year = daysToMonth year (12 + 1) := rfl
  rw [hmonths, daysToMonth_succ (by decide), daysToMonth_fromMarch (m := 9) (by decide)]
  split <;> rfl

theorem daysToYear_succ (year : Int) : daysToYear (year + 1) = daysToYear year + yearDays year := by
  unfold daysToYear
  rcases Int.lt_or_le year 1970 with h | h
  · have hcount : (1970 - year).toNat = (1970 - (year + 1)).toNat + 1 := by omega
    have hlast : (1969 - ((1970 - (year + 1)).toNat : Int)) = year := by omega
    have hbefore : (year + 1 - 1970).toNat = (year - 1970).toNat := by omega
    rw [hcount, Finset.sum_range_succ, hlast, hbefore]
    omega
  · have hcount : (year + 1 - 1970).toNat = (year - 1970).toNat + 1 := by omega
    have hlast : (1970 + ((year - 1970).toNat : Int)) = year := by omega
    have hbehind : (1970 - (year + 1)).toNat = (1970 - year).toNat := by omega
    rw [hcount, Finset.sum_range_succ, hlast, hbehind]
    omega

/-- Leap years counted by division. -/
theorem daysToYear_eq (year : Int) : daysToYear year =
    365 * year + (year + 3) / 4 - (year + 99) / 100 + (year + 399) / 400 - 719528 := by
  have hstep (year : Int) : (yearDays year : Int) =
      365 + ((year + 4) / 4 - (year + 3) / 4) - ((year + 100) / 100 - (year + 99) / 100) +
        ((year + 400) / 400 - (year + 399) / 400) := by
    rw [yearDays_eq]
    by_cases h : IsLeapYear year
    · rw [if_pos h]
      unfold IsLeapYear at h
      omega
    · rw [if_neg h]
      unfold IsLeapYear at h
      omega
  induction year using Int.inductionOn' (b := 1970) with
  | zero => rfl
  | succ year _ ih =>
    rw [daysToYear_succ, ih, hstep]
    omega
  | pred year _ ih =>
    have h := daysToYear_succ (year - 1)
    rw [Int.sub_add_cancel, ih, hstep] at h
    omega

theorem daysToYear_mono {year year' : Int} (h : year ≤ year') :
    daysToYear year ≤ daysToYear year' := by
  induction year', h using Int.leInduction with
  | base => exact Int.le_refl _
  | succ year' _ ih =>
    rw [daysToYear_succ]
    omega

theorem daysToYear_add_le {year year' : Int} (h : year < year') :
    daysToYear year + yearDays year ≤ daysToYear year' := by
  rw [← daysToYear_succ]
  exact daysToYear_mono h

/-- The number of a date whose months are counted from March on. -/
theorem dayNumber_fromMarch {m : Nat} (h : m ≤ 9) (year : Int) (day : Nat) :
    dayNumber year (m + 3) day = 365 * year + year / 4 - year / 100 + year / 400 +
      (153 * m + 2) / 5 + day - 719469 := by
  rw [dayNumber, daysToYear_eq, daysToMonth_fromMarch h]
  by_cases h : IsLeapYear year
  · rw [if_pos h]
    unfold IsLeapYear at h
    omega
  · rw [if_neg h]
    unfold IsLeapYear at h
    omega

/-- January and February end the year before. -/
theorem dayNumber_winter {month : Nat} (h : month = 1 ∨ month = 2) (year : Int) (day : Nat) :
    dayNumber (year + 1) month day = 365 * year + year / 4 - year / 100 + year / 400 +
      (153 * (month + 9) + 2) / 5 + day - 719469 := by
  rw [dayNumber, daysToYear_eq]
  obtain rfl | rfl := h
  · have hfirst : daysToMonth (year + 1) 1 = 0 := rfl
    rw [hfirst]
    omega
  · have hsecond : daysToMonth (year + 1) 2 = 31 := rfl
    rw [hsecond]
    omega

/-- The conversion of dates counts years from March on. -/
theorem daysOfDate_eq {year : Int} {month day : Nat} (hmonth : 1 ≤ month ∧ month ≤ 12)
    (hday : 1 ≤ day) : daysOfDate year month day = dayNumber year month day := by
  unfold daysOfDate
  simp only [eraDays, epochShift]
  by_cases hwinter : month ≤ 2
  · have hnumber := dayNumber_winter (by omega : month = 1 ∨ month = 2) (year - 1) day
    rw [Int.sub_add_cancel] at hnumber
    rw [if_pos hwinter, if_pos hwinter, hnumber]
    omega
  · obtain ⟨m, rfl⟩ : ∃ m, month = m + 3 := ⟨month - 3, by omega⟩
    rw [if_neg hwinter, if_neg hwinter, dayNumber_fromMarch (by omega), Nat.add_sub_cancel]
    omega

/-- A day of an era is told by its century, its four years, its year and its place there. Only the
last of several may be a day longer. -/
private theorem exists_dayOfEra {n : Nat} (h : n < 146097) :
    ∃ c q a d, c ≤ 3 ∧ q ≤ 24 ∧ a ≤ 3 ∧ (d ≤ 364 ∨ d = 365 ∧ a = 3 ∧ (q < 24 ∨ c = 3)) ∧
      n = 36524 * c + 1461 * q + 365 * a + d := by
  obtain ⟨c, r, hc, hr, rfl⟩ :
      ∃ c r, c ≤ 3 ∧ (r < 36524 ∨ r = 36524 ∧ c = 3) ∧ n = 36524 * c + r := by
    by_cases hlast : n = 146096
    · exact ⟨3, 36524, by omega⟩
    · exact ⟨n / 36524, n % 36524, by omega⟩
  obtain ⟨a, d, ha, hd, hrest⟩ :
      ∃ a d, a ≤ 3 ∧ (d ≤ 364 ∨ d = 365 ∧ a = 3) ∧ r % 1461 = 365 * a + d := by
    by_cases hlast : r % 1461 = 1460
    · exact ⟨3, 365, by omega⟩
    · exact ⟨r % 1461 / 365, r % 1461 % 365, by omega⟩
  exact ⟨c, r / 1461, a, d, hc, by omega, ha, by omega, by omega⟩

/-- Without its leap days a day of an era gives its year by one division. -/
private theorem yearOfEra_eq {c q a d n : Nat} (hc : c ≤ 3) (hq : q ≤ 24) (ha : a ≤ 3)
    (hd : d ≤ 364 ∨ d = 365 ∧ a = 3 ∧ (q < 24 ∨ c = 3))
    (hn : n = 36524 * c + 1461 * q + 365 * a + d) :
    (n - n / 1460 + n / 36524 - n / 146096) / 365 = 100 * c + 4 * q + a := by
  have hyears : n / 1460 = 25 * c + q + (24 * c + q + 365 * a + d) / 1460 := by omega
  have hcenturies : n / 36524 = c + n / 146096 := by
    by_cases hlast : n = 146096
    · omega
    · have hzero : n / 146096 = 0 := by omega
      rw [hzero]
      clear hyears
      omega
  omega

private theorem dateOfDays_eq {era : Int} {c q a d : Nat} (hc : c ≤ 3) (hq : q ≤ 24) (ha : a ≤ 3)
    (hd : d ≤ 364 ∨ d = 365 ∧ a = 3 ∧ (q < 24 ∨ c = 3)) :
    dateOfDays (era * 146097 + (36524 * c + 1461 * q + 365 * a + d : Nat) - 719468) =
      let year := era * 400 + (100 * c + 4 * q + a : Nat)
      let m := (5 * d + 2) / 153
      (if m < 10 then year else year + 1, if m < 10 then m + 3 else m - 9,
        d - (153 * m + 2) / 5 + 1) := by
  generalize hn : 36524 * c + 1461 * q + 365 * a + d = n
  have hlt : (n : Int) < eraDays := by
    simp only [eraDays]
    omega
  have hshift : era * 146097 + (n : Nat) - 719468 + epochShift = n + era * eraDays := by
    simp only [epochShift, eraDays]
    omega
  have hera : (era * 146097 + (n : Nat) - 719468 + epochShift) / eraDays = era := by
    rw [hshift, Int.add_mul_ediv_right _ _ (by decide), Int.ediv_eq_zero_of_lt (by omega) hlt,
      Int.zero_add]
  have hday : ((era * 146097 + (n : Nat) - 719468 + epochShift) % eraDays).toNat = n := by
    rw [hshift, Int.add_mul_emod_self_right, Int.emod_eq_of_lt (by omega) hlt, Int.toNat_natCast]
  have hrest : n - (365 * (100 * c + 4 * q + a) + (100 * c + 4 * q + a) / 4 -
      (100 * c + 4 * q + a) / 100) = d := by
    omega
  unfold dateOfDays
  simp only [hera, hday, yearOfEra_eq hc hq ha hd hn.symm, hrest]
  have hlast : (5 * d + 2) / 153 ≤ 11 := by omega
  generalize (5 * d + 2) / 153 = m at hlast ⊢
  by_cases hspring : m < 10
  · rw [if_pos hspring, if_pos hspring, if_neg (by omega)]
  · rw [if_neg hspring, if_neg hspring, if_pos (by omega)]

/-- A number of days is converted to a date of the calendar, and it is the number of that date. -/
theorem dateOfDays_spec {days year : Int} {month day : Nat}
    (h : dateOfDays days = (year, month, day)) :
    (1 ≤ month ∧ month ≤ 12) ∧ (1 ≤ day ∧ day ≤ monthDays year month) ∧
      dayNumber year month day = days := by
  have hlt : ((days + 719468) % 146097).toNat < 146097 := by omega
  obtain ⟨c, q, a, d, hc, hq, ha, hd, hn⟩ := exists_dayOfEra hlt
  have hdays : days = (days + 719468) / 146097 * 146097 +
      (36524 * c + 1461 * q + 365 * a + d : Nat) - 719468 := by
    omega
  generalize (days + 719468) / 146097 = era at hdays
  rw [hdays, dateOfDays_eq hc hq ha hd] at h
  simp only [Prod.mk.injEq] at h
  obtain ⟨hyear, hmonth, hday⟩ := h
  have hlast : (5 * d + 2) / 153 ≤ 11 := by omega
  have hbefore : (153 * ((5 * d + 2) / 153) + 2) / 5 ≤ d := by omega
  have hafter : d < (153 * ((5 * d + 2) / 153 + 1) + 2) / 5 := by omega
  generalize (5 * d + 2) / 153 = m at *
  clear hn hlt
  by_cases hspring : m < 10
  · rw [if_pos hspring] at hyear hmonth
    subst hmonth
    have hlength := monthDays_fromMarch (by omega : m ≤ 9) year
    refine ⟨by omega, by omega, ?_⟩
    rw [dayNumber_fromMarch (by omega)]
    omega
  · rw [if_neg hspring] at hyear hmonth
    have hwinter : month = 1 ∨ month = 2 := by omega
    refine ⟨by omega, ⟨by omega, ?_⟩, ?_⟩
    · obtain rfl | rfl := hwinter
      · have hlength : monthDays year 1 = 31 := rfl
        omega
      · have hlength : monthDays year 2 = if IsLeapYear year then 29 else 28 := rfl
        rw [hlength]
        by_cases h : IsLeapYear year
        · rw [if_pos h]
          omega
        · rw [if_neg h]
          unfold IsLeapYear at h
          omega
    · rw [← hyear, dayNumber_winter hwinter]
      omega

/-- A date and a time of day that there are. -/
structure IsProper (t : CivilTime) : Prop where
  month : 1 ≤ t.month ∧ t.month ≤ 12
  day : 1 ≤ t.day ∧ t.day ≤ monthDays t.year t.month
  hour : t.hour < 24
  minute : t.minute < 60
  second : t.second < 60

def dayCount (t : CivilTime) : Int := dayNumber t.year t.month t.day

def daySecond (t : CivilTime) : Nat := t.hour * 3600 + t.minute * 60 + t.second

/-- A moment has this date and this time of day in Coordinated Universal Time. -/
structure Shows (t : CivilTime) (unix : Int) : Prop where
  proper : t.IsProper
  unix_eq : unix = t.dayCount * daySeconds + t.daySecond

/-- The numbers of a time from the year down. -/
def parts (t : CivilTime) : List Nat := [t.year.toNat, t.month, t.day, t.hour, t.minute, t.second]

/-- A moment whose year is written with at most four digits. -/
def HasPlainYear (unix : Int) : Prop :=
  ∃ t : CivilTime, t.Shows unix ∧ 0 ≤ t.year ∧ t.year ≤ 9999

variable {t t' : CivilTime} {unix unix' : Int}

namespace IsProper

theorem daySecond_lt (h : t.IsProper) : t.daySecond < daySeconds := by
  have hhour := h.hour
  have hminute := h.minute
  have hsecond := h.second
  simp only [daySecond, daySeconds]
  omega

theorem day_le (h : t.IsProper) : t.day ≤ 31 := by
  have hday := h.day.2
  have hlong : monthDays t.year t.month ≤ 31 := by
    unfold monthDays
    split <;> (try split) <;> decide
  omega

theorem daysToMonth_add_le (h : t.IsProper) :
    daysToMonth t.year t.month + t.day ≤ yearDays t.year := by
  have hday := h.day.2
  have hmonth : t.month < 13 := by have := h.month.2; omega
  have hyear : daysToMonth t.year 13 = yearDays t.year := rfl
  have hnext := CivilTime.daysToMonth_add_le t.year h.month.1 hmonth
  omega

/-- Of two dates the one with the lesser year comes first, in one year the one with the lesser
month, and in one month the one with the lesser day. -/
theorem dayCount_lt (h : t.IsProper) (h' : t'.IsProper)
    (hlt : t.year < t'.year ∨ t.year = t'.year ∧ (t.month < t'.month ∨
      t.month = t'.month ∧ t.day < t'.day)) : t.dayCount < t'.dayCount := by
  have hday := h.day
  have hday' := h'.day
  unfold dayCount dayNumber
  rcases hlt with hyear | ⟨hyear, hmonth | ⟨hmonth, hless⟩⟩
  · have hnext := daysToYear_add_le hyear
    have hend := h.daysToMonth_add_le
    omega
  · have hnext := CivilTime.daysToMonth_add_le t.year h.month.1 hmonth
    rw [← hyear]
    omega
  · rw [← hyear, ← hmonth]
    omega

end IsProper

/-- What the clock shows is the date and the time of day of its second. -/
theorem shows_ofUnix (unix : Int) : (ofUnix unix).Shows (shownSecond unix) := by
  unfold ofUnix
  generalize shownSecond unix = unix
  obtain ⟨⟨year, month, day⟩, hdate⟩ : ∃ date, dateOfDays (unix / daySeconds) = date := ⟨_, rfl⟩
  obtain ⟨hmonth, hday, hnumber⟩ := dateOfDays_spec hdate
  simp only [hdate]
  refine ⟨⟨hmonth, hday, ?_, ?_, ?_⟩, ?_⟩
  · simp only [daySeconds]
    omega
  · exact Nat.mod_lt _ (by decide)
  · exact Nat.mod_lt _ (by decide)
  · simp only [dayCount, daySecond, hnumber, daySeconds]
    omega

namespace Shows

/-- The conversion back counts the same seconds. -/
theorem toUnix_eq (h : t.Shows unix) : t.toUnix = unix := by
  rw [toUnix, daysOfDate_eq h.proper.month h.proper.day.1, h.unix_eq]
  rfl

/-- A moment lies in the year that it shows. -/
theorem year_bounds (h : t.Shows unix) : daysToYear t.year * daySeconds ≤ unix ∧
    unix < daysToYear (t.year + 1) * daySeconds := by
  have hsecond := h.proper.daySecond_lt
  have hend := h.proper.daysToMonth_add_le
  have hday := h.proper.day.1
  rw [h.unix_eq, daysToYear_succ, dayCount, dayNumber]
  simp only [daySeconds] at *
  omega

/-- The later of two years has the later moments. -/
theorem year_le_iff (h : t.Shows unix) (year : Int) :
    year ≤ t.year ↔ daysToYear year * daySeconds ≤ unix := by
  obtain ⟨hlow, hhigh⟩ := h.year_bounds
  simp only [daySeconds] at *
  constructor
  · intro hyear
    have hmono := daysToYear_mono hyear
    omega
  · intro hunix
    by_contra hyear
    have hmono := daysToYear_mono (by omega : t.year + 1 ≤ year)
    omega

theorem lt_of_parts_lt (h : t.Shows unix) (h' : t'.Shows unix') (hyear : 0 ≤ t.year)
    (hyear' : 0 ≤ t'.year) (hlt : t.parts < t'.parts) : unix < unix' := by
  have hsecond := h.proper.daySecond_lt
  have hsecond' := h'.proper.daySecond_lt
  rw [h.unix_eq, h'.unix_eq]
  simp only [parts, List.cons_lt_cons_iff, List.lt_irrefl, and_false, or_false] at hlt
  rcases Int.lt_or_le t.dayCount t'.dayCount with hday | hday
  · simp only [daySeconds] at *
    omega
  · have hnot := mt (h.proper.dayCount_lt h'.proper) (Int.not_lt.mpr hday)
    obtain ⟨hy, hm, hd⟩ : t.year = t'.year ∧ t.month = t'.month ∧ t.day = t'.day := by omega
    have hsame : t.dayCount = t'.dayCount := by rw [dayCount, dayCount, hy, hm, hd]
    have hminute := h.proper.minute
    have hsecond := h.proper.second
    have hless : t.daySecond < t'.daySecond := by
      unfold daySecond
      omega
    rw [hsame]
    omega

theorem eq_of_parts_eq (hyear : 0 ≤ t.year) (hyear' : 0 ≤ t'.year) (h : t.parts = t'.parts) :
    t = t' := by
  obtain ⟨year, month, day, hour, minute, second⟩ := t
  obtain ⟨year', month', day', hour', minute', second'⟩ := t'
  simp only [parts, List.cons.injEq, and_true] at h hyear hyear'
  obtain ⟨hy, rfl, rfl, rfl, rfl, rfl⟩ := h
  obtain rfl : year = year' := by omega
  rfl

/-- Moments come in the order of their numbers, from the year down. -/
theorem parts_lt_iff (h : t.Shows unix) (h' : t'.Shows unix') (hyear : 0 ≤ t.year)
    (hyear' : 0 ≤ t'.year) : t.parts < t'.parts ↔ unix < unix' := by
  refine ⟨h.lt_of_parts_lt h' hyear hyear', fun hlt => ?_⟩
  rcases lt_trichotomy t.parts t'.parts with hless | hsame | hmore
  · exact hless
  · rw [h.unix_eq, h'.unix_eq, eq_of_parts_eq hyear hyear' hsame] at hlt
    omega
  · have hgt := h'.lt_of_parts_lt h hyear' hyear hmore
    omega

/-- A moment has one date and time of day. -/
theorem unique (h : t.Shows unix) (h' : t'.Shows unix) : t = t' := by
  have hsecond := h.proper.daySecond_lt
  have hsecond' := h'.proper.daySecond_lt
  have hunix := h.unix_eq.symm.trans h'.unix_eq
  simp only [daySeconds] at hsecond hsecond' hunix
  have hnot := mt (h.proper.dayCount_lt h'.proper) (by omega)
  have hnot' := mt (h'.proper.dayCount_lt h.proper) (by omega)
  have hrest : t.daySecond = t'.daySecond := by omega
  obtain ⟨-, -, -, hminute, hsecond⟩ := h.proper
  obtain ⟨-, -, -, hminute', hsecond'⟩ := h'.proper
  obtain ⟨year, month, day, hour, minute, second⟩ := t
  obtain ⟨year', month', day', hour', minute', second'⟩ := t'
  simp only [daySecond] at *
  obtain ⟨rfl, rfl, rfl⟩ : year = year' ∧ month = month' ∧ day = day' := by omega
  obtain ⟨rfl, rfl, rfl⟩ : hour = hour' ∧ minute = minute' ∧ second = second' := by omega
  rfl

/-- The start of the minute of a moment. -/
theorem startOfMinute (h : t.Shows unix) :
    { t with second := 0 }.Shows (unix / 60 * 60) := by
  obtain ⟨hmonth, hday, hhour, hminute, hsecond⟩ := h.proper
  refine ⟨⟨hmonth, hday, hhour, hminute, Nat.zero_lt_succ _⟩, ?_⟩
  rw [h.unix_eq]
  simp only [daySecond, dayCount, daySeconds]
  omega

theorem hasPlainYear_iff (h : t.Shows unix) :
    HasPlainYear unix ↔ 0 ≤ t.year ∧ t.year ≤ 9999 := by
  refine ⟨fun ⟨t', ht', hyear⟩ => ?_, fun hyear => ⟨t, h, hyear⟩⟩
  rwa [h.unique ht']

end Shows

private theorem shownSecond_eq (h : -62167219200 ≤ unix ∧ unix < 253402300800) :
    shownSecond unix = unix := by
  simp only [shownSecond, firstSecond, clockSpan, eraDays, epochShift, daySeconds]
  omega

/-- The years in question last from the start of the year 0 to that of the year 10000. -/
theorem hasPlainYear_iff : HasPlainYear unix ↔ -62167219200 ≤ unix ∧ unix < 253402300800 := by
  have hfirst : daysToYear 0 * daySeconds = -62167219200 := by
    rw [daysToYear_eq]
    rfl
  have hlast : daysToYear 10000 * daySeconds = 253402300800 := by
    rw [daysToYear_eq]
    rfl
  have hbounds {t : CivilTime} (h : t.Shows unix) :
      0 ≤ t.year ∧ t.year ≤ 9999 ↔ -62167219200 ≤ unix ∧ unix < 253402300800 := by
    have hlow := h.year_le_iff 0
    have hhigh := h.year_le_iff 10000
    rw [hfirst] at hlow
    rw [hlast] at hhigh
    omega
  constructor
  · rintro ⟨t, h, hyear⟩
    exact (hbounds h).mp hyear
  · intro hunix
    have h := shows_ofUnix unix
    rw [shownSecond_eq hunix] at h
    exact ⟨ofUnix unix, h, (hbounds h).mpr hunix⟩

/-- In these years the clock shows the date and the time of day of every moment. -/
theorem HasPlainYear.shows (h : HasPlainYear unix) :
    (ofUnix unix).Shows unix ∧ 0 ≤ (ofUnix unix).year ∧ (ofUnix unix).year ≤ 9999 := by
  have hshows := shows_ofUnix unix
  rw [shownSecond_eq (hasPlainYear_iff.mp h)] at hshows
  exact ⟨hshows, hshows.hasPlainYear_iff.mp h⟩

end SurveyForms.CivilTime
