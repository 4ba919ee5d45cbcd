import SurveyForms.Proofs.RegistryCommands

/-! The registry of a project over a run of commands. Main result: it holds the builds of the
compiles that found it there and wrote their workbooks, in order, and nothing else changes it. -/
namespace SurveyForms.Project

open Job Registry

variable {registry : String} {bs : List Build} {w : World}

/-- A command, or a text that is written between commands. -/
inductive Step where
  | write (path text : String)
  | init
  | compile (source output : String) (checked : Bool) (now : Moment)
  | lint (path : String)
  | outline (source : String) (now : Moment)
  | history (form : String)

namespace Step

/-- The world after a step in a project with this registry. A command may fail. -/
def after (registry : String) (w : World) : Step → World
  | .write path text =>
    { w with files := ((w.files.writeFile path (.text text)).toOption).getD w.files }
  | .init => (Project.init registry).after w
  | .compile source output checked now =>
    (Project.compile ⟨source, output, registry, checked⟩ now).after w
  | .lint path => (Project.lint path).after w
  | .outline source now => (Project.outline source now).after w
  | .history form => (Project.history registry form).after w

/-- The build that a step adds to the registry. -/
def added? (registry : String) (t : FileTree) : Step → Option Build
  | .compile source output checked now =>
    CompileOptions.added? ⟨source, output, registry, checked⟩ now t
  | _ => none

/-- What one step does to the registry. -/
theorem keeps (s : Step) (hordinary : Ordinary registry) (h : Kept w.files registry bs) :
    Keeps registry (bs ++ (s.added? registry w.files).toList) (s.after registry w).files := by
  have hnone {t : FileTree} (hkeeps : Keeps registry bs t) :
      Keeps registry (bs ++ (none : Option Build).toList) t := by
    rwa [Option.toList_none, List.append_nil]
  cases s with
  | write path text =>
    refine hnone ?_
    rw [after]
    cases hwrite : w.files.writeFile path (.text text) with
    | error cause => exact fun _ => h
    | ok t => exact .of_writes h (FileTree.writes_of_writeFile h.wellFormed hwrite).1 rfl
  | init => exact hnone (ends_init hordinary h).after
  | compile source output checked now => exact (ends_compile_of_kept hordinary h).after
  | lint path => exact hnone (ends_lint fun _ => h).after
  | outline source now => exact hnone (ends_outline fun _ => h).after
  | history form => exact hnone (ends_history hordinary h).after

end Step

/-- One step after the other, whether they fail or not. -/
def run (registry : String) : List Step → World → World
  | [], w => w
  | s :: steps, w => run registry steps (s.after registry w)

/-- The builds that the steps of a run add, in order. -/
def recorded (registry : String) : List Step → World → List Build
  | [], _ => []
  | s :: steps, w =>
    (s.added? registry w.files).toList ++ recorded registry steps (s.after registry w)

/-- A run in which nothing but a registry is ever made at its path. -/
def Undisturbed (registry : String) (steps : List Step) (w : World) : Prop :=
  ∀ n ≤ steps.length, Quiet registry (run registry (steps.take n) w).files

instance (registry : String) (steps : List Step) (w : World) :
    Decidable (Undisturbed registry steps w) :=
  inferInstanceAs (Decidable (∀ n ≤ steps.length, _))

theorem Undisturbed.tail {s : Step} {steps : List Step}
    (h : Undisturbed registry (s :: steps) w) : Quiet registry (s.after registry w).files ∧
      Undisturbed registry steps (s.after registry w) := by
  have hrest : Undisturbed registry steps (s.after registry w) :=
    fun n hn => h (n + 1) (Nat.succ_le_succ hn)
  exact ⟨hrest 0 (Nat.zero_le _), hrest⟩

/-- What a run does to the registry. -/
theorem kept_run {steps : List Step} (hordinary : Ordinary registry) (h : Kept w.files registry bs)
    (hundisturbed : Undisturbed registry steps w) :
    Kept (run registry steps w).files registry (bs ++ recorded registry steps w) := by
  induction steps generalizing w bs with
  | nil => rwa [recorded, List.append_nil]
  | cons s steps ih =>
    obtain ⟨hquiet, hrest⟩ := hundisturbed.tail
    have hnext := ih (s.keeps hordinary h hquiet) hrest
    rwa [List.append_assoc] at hnext

/-- From a project without a registry on, the registry holds one build for each compile that found
it there and got past writing its workbook, numbered in their order, and no other step adds or
changes one. A compile of a source that is at fault or has no settings changes no file. -/
theorem registry_holds_recorded {steps : List Step} (hordinary : Ordinary registry)
    (hstraight : w.files.Straight registry) (hwf : w.files.WellFormed)
    (hnew : w.files.find? (w.files.locate registry) = none)
    (hundisturbed : Undisturbed registry steps w) :
    (∀ content, (run registry steps w).files.find? ((run registry steps w).files.locate registry) =
        some content → content = .registry (ofBuilds (recorded registry steps w))) ∧
      ((run registry steps w).files.find? ((run registry steps w).files.locate registry) = none →
        recorded registry steps w = []) ∧
      ∀ (o : CompileOptions) (now : Moment) (w' : World), o.Unready now w'.files →
        ((Project.compile o now).after w').files = w'.files := by
  have hkept := kept_run hordinary ⟨hwf, hstraight, .nothing hnew⟩ hundisturbed
  rw [List.nil_append] at hkept
  refine ⟨fun content hcontent => ?_, fun hnone => ?_, fun o now w' hunready => ?_⟩
  · generalize recorded registry steps w = builds at hkept ⊢
    cases hkept.holds with
    | nothing hnone => rw [hnone] at hcontent; cases hcontent
    | registry _ hfind => rw [hfind] at hcontent; exact (Option.some.inj hcontent).symm
  · generalize recorded registry steps w = builds at hkept ⊢
    cases hkept.holds with
    | nothing _ => rfl
    | registry _ hfind => rw [hnone] at hfind; cases hfind
  · exact (ends_compile_of_unready hunready (P := (· = w'.files)) rfl).after

/-- A project with one source. Its question has no label, which a check reports. -/
private def sketch : World :=
  ⟨(FileTree.ofHome ["proj"]).put ["proj", "f.comb"] (.text "@form f 1 F\nq text:"), "", []⟩

/-- A compile without a registry, one that fails for what it found and one without checks. -/
private def session : List Step :=
  [.compile "f.comb" "" false ⟨0, 0⟩, .init, .compile "f.comb" "out.xlsx" true ⟨0, 0⟩,
    .history "f", .compile "f.comb" "" false ⟨0, 0⟩]

private def shelf : String := ".comb/comb.db"

private def sessionBuilds : List Build :=
  [⟨"f.comb", "out.xlsx", "f", "1", 1, 0, 1, 0, 0⟩, ⟨"f.comb", "f.xlsx", "f", "1", 1, 0, 0, 0, 0⟩]

theorem shelf_holds_session :
    Ordinary shelf ∧ sketch.files.Straight shelf ∧ sketch.files.WellFormed ∧
      sketch.files.find? (sketch.files.locate shelf) = none ∧ Undisturbed shelf session sketch ∧
      (run shelf session sketch).files.find? ((run shelf session sketch).files.locate shelf) =
        some (.registry (ofBuilds sessionBuilds)) ∧
      CompileOptions.Unready ⟨"g.comb", "", shelf, true⟩ ⟨0, 0⟩ sketch.files ∧
      ((Project.compile ⟨"g.comb", "", shelf, true⟩ ⟨0, 0⟩).after sketch).files =
        sketch.files := by
  have hordinary : Ordinary shelf := ⟨by decide, by decide, by decide, by decide, by decide⟩
  have hstart : sketch.files.Straight shelf ∧ sketch.files.WellFormed ∧
      sketch.files.find? (sketch.files.locate shelf) = none ∧
      CompileOptions.Unready ⟨"g.comb", "", shelf, true⟩ ⟨0, 0⟩ sketch.files := by decide +kernel
  have hsession : Undisturbed shelf session sketch ∧
      recorded shelf session sketch = sessionBuilds := by decide +kernel
  obtain ⟨hstraight, hwf, hnew, hunready⟩ := hstart
  obtain ⟨hundisturbed, hrecorded⟩ := hsession
  obtain ⟨hthere, hnowhere, hunchanged⟩ :=
    registry_holds_recorded hordinary hstraight hwf hnew hundisturbed
  rw [hrecorded] at hthere hnowhere
  refine ⟨hordinary, hstraight, hwf, hnew, hundisturbed, ?_, hunready, hunchanged _ _ _ hunready⟩
  cases hfind : (run shelf session sketch).files.find? _ with
  | none => cases hnowhere hfind
  | some content => rw [hthere content hfind]

/-- A path through the workbook. Once that is written, no one can walk along the path to see that
there is no registry, while its text still leads to a place for one. -/
private def detour : String := "f.xlsx/../r.db"

/-- A build is recorded though the registry was not there. -/
theorem detour_records_without_registry :
    sketch.files.find? (sketch.files.locate detour) = none ∧
      Undisturbed detour [.compile "f.comb" "" false ⟨0, 0⟩] sketch ∧
      recorded detour [.compile "f.comb" "" false ⟨0, 0⟩] sketch = [] ∧
      (run detour [.compile "f.comb" "" false ⟨0, 0⟩] sketch).files.find? ["proj", "r.db"] =
        some (.registry (ofBuilds [⟨"f.comb", "f.xlsx", "f", "1", 1, 0, 0, 0, 0⟩])) := by
  decide +kernel

end SurveyForms.Project
