import Mathlib.Data.String.Basic
import SurveyForms.Proofs.ByteOrder
import SurveyForms.Proofs.Calendar
import SurveyForms.Proofs.Settings
import SurveyForms.Proofs.StampFields

/-! Versions that come from the clock. Main result: they show the minute of the moment in
Coordinated Universal Time, and within a century they tell minutes apart and come in their order. -/
namespace SurveyForms

namespace CivilTime

variable {t t' : CivilTime} {unix unix' : Int}

def minuteParts (t : CivilTime) : List Nat :=
  [t.year.toNat % 100, t.month, t.day, t.hour, t.minute]

/-- The fields of a version, each of two digits. -/
def versionFields : List StampField :=
  ["06", "01", "02", "15", "04"].map (.number 2)

theorem IsProper.fits (h : t.IsProper) : ∀ n ∈ t.minuteParts, Stamp.Fits 2 n := by
  have hlast := h.day_le
  obtain ⟨⟨-, hmonth⟩, -, hhour, hminute, -⟩ := h
  simp only [minuteParts, List.forall_mem_cons]
  refine ⟨?_, ?_, ?_, ?_, ?_, List.forall_mem_nil _⟩
  all_goals exact Stamp.fits_two (by omega)

theorem IsProper.toList_version (h : t.IsProper) (hyear : 0 ≤ t.year) :
    t.version.toList = t.minuteParts.flatMap (Stamp.decimals 2) := by
  have hsign : t.year.natAbs = t.year.toNat := by omega
  obtain ⟨hfirst, hmonth, hday, hhour, hminute, -⟩ := by
    simpa only [minuteParts, List.forall_mem_cons] using h.fits
  rw [version, hsign]
  simp only [String.toList_append, minuteParts, List.flatMap_cons, List.flatMap_nil,
    List.append_assoc, List.append_nil]
  rw [Stamp.toList_digits (by decide) hfirst, Stamp.toList_digits (by decide) hmonth,
    Stamp.toList_digits (by decide) hday, Stamp.toList_digits (by decide) hhour,
    Stamp.toList_digits (by decide) hminute]

theorem IsProper.written_version (h : t.IsProper) (hyear : 0 ≤ t.year) :
    Stamp.Written versionFields t.minuteParts t.version.toList := by
  obtain ⟨hfirst, hmonth, hday, hhour, hminute, -⟩ := by
    simpa only [minuteParts, List.forall_mem_cons] using h.fits
  rw [h.toList_version hyear]
  exact .number hfirst (.number hmonth (.number hday (.number hhour (.number hminute .nil))))

/-- In one century the last two digits of the years are in the order of the years. -/
theorem minuteParts_lt_iff (hyear : 0 ≤ t.year) (hyear' : 0 ≤ t'.year)
    (hcentury : t.year / 100 = t'.year / 100) :
    t.minuteParts < t'.minuteParts ↔
      { t with second := 0 }.parts < { t' with second := 0 }.parts := by
  simp only [minuteParts, parts, List.cons_lt_cons_iff, List.lt_irrefl, and_false, or_false]
  omega

theorem Shows.version_lt_iff (h : t.Shows unix) (hyear : 0 ≤ t.year) (h' : t'.Shows unix')
    (hyear' : 0 ≤ t'.year) (hcentury : t.year / 100 = t'.year / 100) :
    t.version < t'.version ↔ unix / 60 < unix' / 60 := by
  rw [String.lt_iff, (h.proper.written_version hyear).lt_iff (h'.proper.written_version hyear'),
    minuteParts_lt_iff hyear hyear' hcentury, h.startOfMinute.parts_lt_iff h'.startOfMinute hyear
      hyear']
  omega

theorem Shows.version_eq_iff (h : t.Shows unix) (hyear : 0 ≤ t.year) (h' : t'.Shows unix')
    (hyear' : 0 ≤ t'.year) (hcentury : t.year / 100 = t'.year / 100) :
    t.version = t'.version ↔ unix / 60 = unix' / 60 := by
  have hlt := h.version_lt_iff hyear h' hyear' hcentury
  have hgt := h'.version_lt_iff hyear' h hyear hcentury.symm
  constructor
  · intro hsame
    rw [hsame] at hlt hgt
    have hnot := mt hlt.mpr (String.lt_irrefl _)
    have hnot' := mt hgt.mpr (String.lt_irrefl _)
    omega
  · intro hminute
    have hnot := mt hlt.mp (by omega)
    have hnot' := mt hgt.mp (by omega)
    exact String.le_antisymm (String.not_lt.mp hnot') (String.not_lt.mp hnot)

theorem IsProper.length_version (h : t.IsProper) (hyear : 0 ≤ t.year) : t.version.length = 10 := by
  rw [← String.length_toList, h.toList_version hyear]
  simp [minuteParts]

theorem IsProper.isDigit_of_mem_version (h : t.IsProper) (hyear : 0 ≤ t.year) {d : Char}
    (hd : d ∈ t.version.toList) : d.isDigit = true := by
  rw [h.toList_version hyear] at hd
  obtain ⟨n, -, hmem⟩ := List.mem_flatMap.mp hd
  exact Stamp.isDigit_of_mem_decimals hmem

end CivilTime

namespace Command

open CivilTime (HasPlainYear)

variable {c : Command} {f : FormSettings}

/-- The clock's zone has no part in it. -/
theorem row_of_auto (hf : c.formSettings = .ok f)
    (hauto : c.args[1]? = some FormSettings.autoVersion) {t : CivilTime} {now : Moment}
    (h : t.Shows now.unix) (hyear : 0 ≤ t.year ∧ t.year ≤ 9999) :
    (f.row now).get? "version" = some t.version := by
  have hplain : HasPlainYear now.unix := ⟨t, h, hyear⟩
  have hname := version_of_formSettings hf
  rw [hauto, Option.some.injEq] at hname
  rw [FormSettings.row, if_pos hname.symm, Row.get?_insert, if_pos rfl, Moment.utc,
    h.unique hplain.shows.1]

/-- A form command that leaves its version to the clock gets ten digits for the year, the month,
the day, the hour and the minute in Coordinated Universal Time, whatever the zone of the clock. In
one century two such versions are the same for the moments of one minute, and otherwise their bytes
are in the order of the moments. -/
theorem version_of_auto (hf : c.formSettings = .ok f)
    (hauto : c.args[1]? = some FormSettings.autoVersion) :
    (∀ unix, HasPlainYear unix → ∃ (t : CivilTime) (version : String), t.Shows unix ∧
      (∀ zone, (f.row ⟨unix, zone⟩).get? "version" = some version) ∧
      version.toList = t.minuteParts.flatMap (Stamp.decimals 2) ∧
      version.length = 10 ∧ ∀ d ∈ version.toList, d.isDigit = true) ∧
    ∀ (now now' : Moment) (t t' : CivilTime) (version version' : String),
      t.Shows now.unix → 0 ≤ t.year ∧ t.year ≤ 9999 →
      t'.Shows now'.unix → 0 ≤ t'.year ∧ t'.year ≤ 9999 →
      t.year / 100 = t'.year / 100 →
      (f.row now).get? "version" = some version →
      (f.row now').get? "version" = some version' →
      (version = version' ↔ now.unix / 60 = now'.unix / 60) ∧
        (now.unix / 60 ≠ now'.unix / 60 →
          (Position.bytes version < Position.bytes version' ↔ now.unix < now'.unix)) := by
  constructor
  · intro unix hplain
    obtain ⟨hshows, hyear⟩ := hplain.shows
    exact ⟨_, _, hshows, fun _ => row_of_auto hf hauto hshows hyear,
      hshows.proper.toList_version hyear.1, hshows.proper.length_version hyear.1,
      fun _ => hshows.proper.isDigit_of_mem_version hyear.1⟩
  · intro now now' t t' version version' h hyear h' hyear' hcentury hversion hversion'
    rw [row_of_auto hf hauto h hyear, Option.some.injEq] at hversion
    rw [row_of_auto hf hauto h' hyear', Option.some.injEq] at hversion'
    rw [← hversion, ← hversion']
    refine ⟨h.version_eq_iff hyear.1 h' hyear'.1 hcentury, fun hminute => ?_⟩
    rw [Text.bytes_lt_iff, h.version_lt_iff hyear.1 h' hyear'.1 hcentury]
    omega

private def clockedForm : Command := ⟨⟨"f.comb", 1, 1⟩, "form", "f", ["auto", "F"]⟩

private def clockedSettings : FormSettings := ⟨"f", "auto", "F", Row.ofList []⟩

/-- The last day of February of a leap year, and a second of the year that follows. -/
theorem version_of_clockedForm :
    clockedForm.formSettings = .ok clockedSettings ∧
      clockedForm.args[1]? = some FormSettings.autoVersion ∧
      HasPlainYear 951868799 ∧ HasPlainYear 978307201 ∧
      (∀ zone, (clockedSettings.row ⟨951868799, zone⟩).get? "version" = some "0002292359") ∧
      (∀ zone, (clockedSettings.row ⟨978307201, zone⟩).get? "version" = some "0101010000") ∧
      Position.bytes "0002292359" < Position.bytes "0101010000" := by
  have hf : clockedForm.formSettings = .ok clockedSettings := rfl
  have hauto : clockedForm.args[1]? = some FormSettings.autoVersion := rfl
  have hfirst : HasPlainYear 951868799 := CivilTime.hasPlainYear_iff.mpr (by decide)
  have hlast : HasPlainYear 978307201 := CivilTime.hasPlainYear_iff.mpr (by decide)
  have hstart : (clockedSettings.row ⟨951868799, 0⟩).get? "version" = some "0002292359" := by
    decide +kernel
  have hend : (clockedSettings.row ⟨978307201, 0⟩).get? "version" = some "0101010000" := by
    decide +kernel
  obtain ⟨hclock, hcompare⟩ := version_of_auto hf hauto
  obtain ⟨-, version, -, hzone, -⟩ := hclock _ hfirst
  obtain ⟨-, version', -, hzone', -⟩ := hclock _ hlast
  obtain rfl : version = "0002292359" := Option.some.inj ((hzone 0).symm.trans hstart)
  obtain rfl : version' = "0101010000" := Option.some.inj ((hzone' 0).symm.trans hend)
  refine ⟨hf, hauto, hfirst, hlast, hzone, hzone', ?_⟩
  obtain ⟨hshows, hyear⟩ := hfirst.shows
  obtain ⟨hshows', hyear'⟩ := hlast.shows
  have hcentury : (CivilTime.ofUnix 951868799).year / 100 =
      (CivilTime.ofUnix 978307201).year / 100 := by
    decide +kernel
  have hboth := hcompare ⟨951868799, 0⟩ ⟨978307201, 0⟩ _ _ _ _ hshows hyear hshows' hyear' hcentury
    hstart hend
  exact (hboth.2 (by decide)).mpr (by decide)

end Command
end SurveyForms
