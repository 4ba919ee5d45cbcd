import Mathlib.Data.List.Zip
import Mathlib.Data.String.Basic
import SurveyForms.Proofs.ByteOrder
import SurveyForms.Proofs.Calendar
import SurveyForms.Proofs.RegistryFiles
import SurveyForms.Proofs.StampFields

/-! The history of a registry. Stamps tell the second of their moment and come in its order by
their bytes. Main result: what has been recorded is listed once and unchanged but for the parts of
a second, the newest first. -/
namespace SurveyForms

namespace CivilTime

variable {t t' : CivilTime} {unix unix' : Int}

theorem IsProper.written_stamp (h : t.IsProper) (hyear : 0 ≤ t.year ∧ t.year ≤ 9999) :
    Stamp.Written Stamp.fields t.parts t.stamp.toList := by
  have hlast := h.day_le
  obtain ⟨⟨-, hmonths⟩, -, hhours, hminutes, hseconds⟩ := h
  have hfirst : Stamp.Fits 4 t.year.toNat := Stamp.fits_four (by omega)
  have hmonth : Stamp.Fits 2 t.month := Stamp.fits_two (by omega)
  have hday : Stamp.Fits 2 t.day := Stamp.fits_two (by omega)
  have hhour : Stamp.Fits 2 t.hour := Stamp.fits_two (by omega)
  have hminute : Stamp.Fits 2 t.minute := Stamp.fits_two (by omega)
  have hsecond : Stamp.Fits 2 t.second := Stamp.fits_two (by omega)
  have hyears : yearText t.year = digits 4 t.year.toNat := by
    rw [yearText, if_neg (by omega)]
    congr 1
    omega
  have htext : t.stamp.toList = Stamp.decimals 4 t.year.toNat ++ '-' ::
      (Stamp.decimals 2 t.month ++ '-' :: (Stamp.decimals 2 t.day ++ 'T' ::
        (Stamp.decimals 2 t.hour ++ ':' :: (Stamp.decimals 2 t.minute ++ ':' ::
          (Stamp.decimals 2 t.second ++ ['Z']))))) := by
    rw [stamp, dateText, hyears]
    simp only [String.toList_append, List.append_assoc]
    rw [Stamp.toList_digits (by decide) hfirst, Stamp.toList_digits (by decide) hmonth,
      Stamp.toList_digits (by decide) hday, Stamp.toList_digits (by decide) hhour,
      Stamp.toList_digits (by decide) hminute, Stamp.toList_digits (by decide) hsecond]
    rfl
  rw [htext]
  exact .number hfirst (.mark (.number hmonth (.mark (.number hday (.mark (.number hhour (.mark
    (.number hminute (.mark (.number hsecond (.mark .nil)))))))))))

namespace Shows

theorem parse_stamp (h : t.Shows unix) (hyear : 0 ≤ t.year ∧ t.year ≤ 9999) :
    Stamp.parse t.stamp = .ok unix := by
  have hfirst : (t.year.toNat : Int) = t.year := Int.toNat_of_nonneg hyear.1
  rw [Stamp.parse, (h.proper.written_stamp hyear).numbers_eq]
  simp only [parts, hfirst]
  exact congrArg Except.ok h.toUnix_eq

/-- Stamps come in the order of their moments by their texts. -/
theorem stamp_lt_iff (h : t.Shows unix) (hyear : 0 ≤ t.year ∧ t.year ≤ 9999)
    (h' : t'.Shows unix') (hyear' : 0 ≤ t'.year ∧ t'.year ≤ 9999) :
    t.stamp < t'.stamp ↔ unix < unix' := by
  rw [String.lt_iff, (h.proper.written_stamp hyear).lt_iff (h'.proper.written_stamp hyear'),
    h.parts_lt_iff h' hyear.1 hyear'.1]

end Shows
end CivilTime

/-- A point in time to the nanosecond, counted from the start of 1970, on the clock of a zone. -/
structure Instant where
  nanoseconds : Int
  zone : Int
  deriving DecidableEq, Repr

def Instant.moment (i : Instant) : Moment := ⟨i.nanoseconds / 1000000000, i.zone⟩

/-- What is asked to be recorded. The time of the build is told by the instant. -/
structure Recording where
  build : Build
  instant : Instant
  deriving DecidableEq, Repr

def Recording.truncated (c : Recording) : Build :=
  { c.build with compiledAt := c.instant.moment.unix }

namespace Registry

open CivilTime (HasPlainYear)

/-- Records one after the other, up to the first that is refused, and collects their numbers. -/
def recordAll : List Recording → Registry → Except RegistryFault (Registry × List Nat)
  | [], r => .ok (r, [])
  | c :: calls, r => do
    let (r, id) ← r.record c.truncated
    let (r, ids) ← recordAll calls r
    return (r, id :: ids)

variable {builds : List Build}

theorem recordAll_ofBuilds (calls : List Recording) (builds : List Build) :
    recordAll calls (ofBuilds builds) =
      .ok (ofBuilds (builds ++ calls.map Recording.truncated),
        List.range' (builds.length + 1) calls.length) := by
  induction calls generalizing builds with
  | nil => rw [recordAll, List.map_nil, List.append_nil]; rfl
  | cons c calls ih =>
    have hnext := ih (builds ++ [c.truncated])
    rw [List.append_assoc, List.length_append] at hnext
    rw [recordAll, record_ofBuilds]
    exact congrArg (fun x => x >>= fun p => Except.ok (p.1, (builds.length + 1) :: p.2)) hnext

theorem newer_total (a b : BuildRecord) : (newer a b || newer b a) = true := by
  simp only [newer, Bool.or_eq_true, Bool.and_eq_true, decide_eq_true_eq, beq_iff_eq]
  rcases lt_trichotomy a.stamp b.stamp with h | h | h
  · exact .inr (.inl h)
  · rcases Nat.le_total a.id b.id with hid | hid
    · exact .inr (.inr ⟨h.symm, hid⟩)
    · exact .inl (.inr ⟨h, hid⟩)
  · exact .inl (.inl h)

theorem newer_trans (a b c : BuildRecord) (hab : newer a b = true) (hbc : newer b c = true) :
    newer a c = true := by
  simp only [newer, Bool.or_eq_true, Bool.and_eq_true, decide_eq_true_eq, beq_iff_eq] at *
  rcases hab with hab | ⟨hab, hid⟩
  · rcases hbc with hbc | ⟨hbc, -⟩
    · exact .inl (String.lt_trans hbc hab)
    · exact .inl (hbc ▸ hab)
  · rcases hbc with hbc | ⟨hbc, hid'⟩
    · exact .inl (hab ▸ hbc)
    · exact .inr ⟨hab.trans hbc, Nat.le_trans hid' hid⟩

/-- The order in which builds are listed: by their seconds, and then by their numbers. -/
def Later (a b : Nat × Build) : Prop :=
  b.2.compiledAt < a.2.compiledAt ∨ b.2.compiledAt = a.2.compiledAt ∧ b.1 < a.1

instance (a b : Nat × Build) : Decidable (Later a b) :=
  inferInstanceAs (Decidable (_ ∨ _))

theorem reread_of_hasPlainYear {r : BuildRecord} (hyear : HasPlainYear r.build.compiledAt)
    (hstamp : r.stamp = (CivilTime.ofUnix r.build.compiledAt).stamp) :
    reread r = .ok (r.id, r.build) := by
  obtain ⟨hshows, hyears⟩ := hyear.shows
  rw [reread, hstamp, hshows.parse_stamp hyears]

/-- A record that is not behind another is later. -/
theorem later_of_newer {a b : BuildRecord} (hyear : HasPlainYear a.build.compiledAt)
    (hyear' : HasPlainYear b.build.compiledAt)
    (hstamp : a.stamp = (CivilTime.ofUnix a.build.compiledAt).stamp)
    (hstamp' : b.stamp = (CivilTime.ofUnix b.build.compiledAt).stamp)
    (hid : a.id ≠ b.id) (h : newer a b = true) : Later (a.id, a.build) (b.id, b.build) := by
  obtain ⟨hshows, hyears⟩ := hyear.shows
  obtain ⟨hshows', hyears'⟩ := hyear'.shows
  simp only [newer, Bool.or_eq_true, Bool.and_eq_true, decide_eq_true_eq, beq_iff_eq] at h
  rcases h with hlt | ⟨hsame, hle⟩
  · rw [hstamp, hstamp', hshows'.stamp_lt_iff hyears' hshows hyears] at hlt
    exact .inl hlt
  · have hparse := hshows.parse_stamp hyears
    rw [← hstamp, hsame, hstamp', hshows'.parse_stamp hyears', Except.ok.injEq] at hparse
    exact .inr ⟨hparse, by omega⟩

theorem mapM_reread {rs : List BuildRecord}
    (h : ∀ r ∈ rs, reread r = .ok (r.id, r.build)) :
    rs.mapM reread = .ok (rs.map fun r => (r.id, r.build)) := by
  induction rs with
  | nil => rfl
  | cons r rs ih =>
    obtain ⟨hr, hrs⟩ := List.forall_mem_cons.mp h
    rw [List.mapM_cons, hr, ih hrs]
    rfl

theorem of_mem_numbered {r : BuildRecord} (h : r ∈ numbered builds) :
    r.build ∈ builds ∧ r.stamp = (CivilTime.ofUnix r.build.compiledAt).stamp := by
  obtain ⟨⟨b, id⟩, hmem, rfl⟩ := List.mem_map.mp h
  exact ⟨List.fst_mem_of_mem_zipIdx hmem, rfl⟩

theorem map_numbered (builds : List Build) :
    (numbered builds).map (fun r => (r.id, r.build)) =
      (List.range' 1 builds.length).zip builds := by
  rw [numbered, List.map_map, List.zipIdx_eq_zip_range', ← List.zip_swap, List.map_map]
  exact List.map_id _

theorem map_stamp_numbered (builds : List Build) :
    (numbered builds).map BuildRecord.stamp =
      builds.map fun b => (CivilTime.ofUnix b.compiledAt).stamp := by
  conv_rhs => rw [← List.zipIdx_map_fst 1 builds]
  rw [numbered, List.map_map, List.map_map]
  rfl

theorem pairwise_id_numbered (builds : List Build) :
    (numbered builds).Pairwise fun a b => a.id ≠ b.id := by
  have hids : (numbered builds).map BuildRecord.id = List.range' 1 builds.length := by
    rw [numbered, List.map_map, ← List.zipIdx_map_snd]
    rfl
  rw [← List.pairwise_map, hids]
  exact List.nodup_range'

/-- Builds in years of four digits are listed with their numbers, the newest first. -/
theorem list_ofBuilds (h : ∀ b ∈ builds, HasPlainYear b.compiledAt) (form : String) :
    ∃ listed, (ofBuilds builds).list form = .ok listed ∧
      listed.Perm (((List.range' 1 builds.length).zip builds).filter
        fun (_, b) => form = "" ∨ b.form = form) ∧ listed.Pairwise Later := by
  let wanted := (numbered builds).filter fun r => form = "" ∨ r.build.form = form
  have hperm : (wanted.mergeSort newer).Perm wanted := List.mergeSort_perm _ _
  have hmem {r : BuildRecord} (hr : r ∈ wanted.mergeSort newer) :
      HasPlainYear r.build.compiledAt ∧
        r.stamp = (CivilTime.ofUnix r.build.compiledAt).stamp := by
    obtain ⟨hbuild, hstamp⟩ := of_mem_numbered (List.mem_of_mem_filter (hperm.mem_iff.mp hr))
    exact ⟨h _ hbuild, hstamp⟩
  have hids : (wanted.mergeSort newer).Pairwise fun a b => a.id ≠ b.id :=
    (hperm.pairwise_iff Ne.symm).mpr ((pairwise_id_numbered builds).filter _)
  have hsorted := List.pairwise_mergeSort newer_trans newer_total wanted
  refine ⟨(wanted.mergeSort newer).map fun r => (r.id, r.build), ?_, ?_, ?_⟩
  · exact mapM_reread fun r hr => reread_of_hasPlainYear (hmem hr).1 (hmem hr).2
  · rw [← map_numbered, List.filter_map]
    exact hperm.map _
  · rw [List.pairwise_map]
    refine (hsorted.and hids).imp_of_mem fun ha hb ⟨hnewer, hne⟩ => ?_
    exact later_of_newer (hmem ha).1 (hmem hb).1 (hmem ha).2 (hmem hb).2 hne hnewer

/-- A new registry that is up to date numbers all that is recorded in increasing order. Of a form,
or of all if the name is empty, it lists each build once as it was recorded, up to the parts of a
second, the newest first and within a second the one with the higher number. The stamps that it
keeps and sorts by are ordered by their bytes as the seconds are. -/
theorem history_recordAll {calls : List Recording}
    (hyears : ∀ c ∈ calls, HasPlainYear c.instant.moment.unix) :
    ∃ r ids t, recordAll calls (migrate migrations empty).1 = .ok (r, ids) ∧
      ids.length = calls.length ∧ ids.Pairwise (· < ·) ∧
      (∀ form, ∃ listed, r.list form = .ok listed ∧
        listed.Perm ((ids.zip (calls.map Recording.truncated)).filter
          fun (_, b) => form = "" ∨ b.form = form) ∧ listed.Pairwise Later) ∧
      r.data = some t ∧ t.records.map BuildRecord.stamp =
        calls.map (fun c => c.instant.moment.utc.stamp) ∧
      ∀ i j : Instant, HasPlainYear i.moment.unix → HasPlainYear j.moment.unix →
        (Position.bytes i.moment.utc.stamp < Position.bytes j.moment.utc.stamp ↔
          i.moment.unix < j.moment.unix) := by
  have hbuilds : ∀ b ∈ calls.map Recording.truncated, HasPlainYear b.compiledAt :=
    List.forall_mem_map.mpr hyears
  have hlist := list_ofBuilds hbuilds
  rw [List.length_map] at hlist
  refine ⟨_, _, _, recordAll_ofBuilds calls [], List.length_range', List.pairwise_lt_range' 1,
    hlist, rfl, ?_, fun i j hi hj => ?_⟩
  · rw [map_stamp_numbered, List.nil_append, List.map_map]
    rfl
  · obtain ⟨hshows, hyear⟩ := hi.shows
    obtain ⟨hshows', hyear'⟩ := hj.shows
    rw [Text.bytes_lt_iff]
    exact hshows.stamp_lt_iff hyear hshows' hyear'

/-- Two within one second on the clocks of two zones, and before them one of another year. -/
private def sampleRecordings : List Recording :=
  [⟨⟨"a.comb", "a.xlsx", "a", "1", 2, 0, 0, 0, 0⟩, ⟨1709647620000000007, 3600⟩⟩,
    ⟨⟨"b.comb", "b.xlsx", "b", "1", 1, 4, 0, 1, 0⟩, ⟨-62167219199999999999, 0⟩⟩,
    ⟨⟨"a.comb", "a.xlsx", "a", "2", 3, 0, 1, 0, 0⟩, ⟨1709647620999999999, -7200⟩⟩]

private def sampleHistory : List (Nat × Build) :=
  [(3, ⟨"a.comb", "a.xlsx", "a", "2", 3, 0, 1, 0, 1709647620⟩),
    (1, ⟨"a.comb", "a.xlsx", "a", "1", 2, 0, 0, 0, 1709647620⟩),
    (2, ⟨"b.comb", "b.xlsx", "b", "1", 1, 4, 0, 1, -62167219200⟩)]

theorem history_sampleRecordings :
    (∀ c ∈ sampleRecordings, HasPlainYear c.instant.moment.unix) ∧
      ∃ r, recordAll sampleRecordings (migrate migrations empty).1 = .ok (r, [1, 2, 3]) ∧
        r.list "" = .ok sampleHistory ∧ r.list "a" = .ok (sampleHistory.take 2) := by
  have hyears : ∀ c ∈ sampleRecordings, HasPlainYear c.instant.moment.unix := by
    intro c hc
    rw [CivilTime.hasPlainYear_iff]
    revert c
    decide
  have hasymm {a b : Nat × Build} (h : Later a b) (h' : Later b a) : a = b := by
    unfold Later at h h'
    omega
  refine ⟨hyears, ?_⟩
  obtain ⟨r, ids, t, hrecord, -, -, hlist, -⟩ := history_recordAll hyears
  have hids := (recordAll_ofBuilds sampleRecordings []).symm.trans hrecord
  cases hids
  refine ⟨_, hrecord, ?_, ?_⟩
  · obtain ⟨listed, hlisted, hperm, hlater⟩ := hlist ""
    rw [hlisted, hperm.trans (by decide : List.Perm _ sampleHistory) |>.eq_of_pairwise
      (fun _ _ _ _ => hasymm) hlater (by decide)]
  · obtain ⟨listed, hlisted, hperm, hlater⟩ := hlist "a"
    rw [hlisted, hperm.trans (by decide : List.Perm _ (sampleHistory.take 2)) |>.eq_of_pairwise
      (fun _ _ _ _ => hasymm) hlater (by decide)]

end Registry
end SurveyForms
