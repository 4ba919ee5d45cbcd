import SurveyForms.Proofs.Cycles
import SurveyForms.Proofs.Obstacles

/-! Where faults stand. A source that cannot be read has its fault on one of its lines, and a
command that cannot be done has it at the command. -/
namespace SurveyForms

open Source (Line)

/-- A fault found while reading a single line. -/
def Fault.isOfLine : Fault → Bool
  | .unreadable _ | .unexpected _ _ => true
  | _ => false

/-- A fault on a line of a file: at its start, or, if the line itself cannot be read, at one of
its characters or behind the last. -/
inductive Diagnostic.OnLine (file : String) (l : Line) : Diagnostic → Prop
  | start (fault : Fault) : OnLine file l ⟨l.start file, fault⟩
  | inside {col : Nat} {fault : Fault} (hfault : fault.isOfLine) (hlow : 1 ≤ col)
      (hhigh : col ≤ l.text.length + 1) : OnLine file l ⟨⟨file, l.number, col⟩, fault⟩

open Diagnostic (OnLine)

theorem Grammar.parseLine_isOfLine {rule : Rule α} {line : List Char} {col : Nat} {fault : Fault}
    (h : parseLine rule line = .error (col, fault)) : fault.isOfLine := by
  unfold parseLine at h
  split at h
  · split at h
    · cases h
    · cases h
      rfl
  · cases h
    rfl

theorem located_onLine (file : String) (l : Line) {rule : Grammar.Rule α}
    (h : Grammar.Faithful rule.run) :
    OnlyFails (OnLine file l) (located file l (Grammar.parseLine rule l.text)) := by
  cases hline : Grammar.parseLine rule l.text with
  | ok a => exact .ok a
  | error e =>
    obtain ⟨col, fault⟩ := e
    obtain ⟨hlow, hhigh⟩ := Grammar.parseLine_error_column h hline
    exact .error (.inside (Grammar.parseLine_isOfLine hline) hlow hhigh)

/-- Some line of a text has the fault. -/
def OnSomeLine (file src : String) (d : Diagnostic) : Prop :=
  ∃ l ∈ Line.ofSource src, d.OnLine file l

private theorem LineReader.forest_onSomeLine {reader : LineReader α β} {file : String}
    (h : ∀ l, OnlyFails (OnLine file l) (reader.entry l)) (src : String) :
    OnlyFails (OnSomeLine file src) (reader.forest file src) := by
  refine onlyFails_block (fun l hl d hd => ⟨l, hl, h l d hd⟩) (fun l hl fault _ => ?_) _
  exact ⟨l, hl, .start fault⟩

theorem surveyReader_onLine (file : String) (l : Line) :
    OnlyFails (OnLine file l) ((surveyReader file).entry l) := by
  refine (located_onLine file l Grammar.faithful_surveyLine).bind fun line => ?_
  cases line <;> exact .ok _

theorem choicesReader_onLine (file : String) (l : Line) :
    OnlyFails (OnLine file l) ((choicesReader file).entry l) := by
  refine (located_onLine file l Grammar.faithful_choicesLine).bind fun line => ?_
  cases line <;> exact .ok _

theorem Survey.ofText_onSomeLine (file src : String) :
    OnlyFails (OnSomeLine file src) (Survey.ofText file src) :=
  LineReader.forest_onSomeLine (surveyReader_onLine file) src

theorem Choices.ofText_onSomeLine (file src : String) :
    OnlyFails (OnSomeLine file src) (Choices.ofText file src) :=
  LineReader.forest_onSomeLine (choicesReader_onLine file) src

/-- A source that cannot be read has its fault on one of the lines that are read. -/
theorem Dialect.commands_onSomeLine (d : Dialect) (file src : String) :
    OnlyFails (OnSomeLine file (d.shown src)) (d.commands file src) := by
  cases d with
  | survey => exact (Survey.ofText_onSomeLine file _).map _
  | choices => exact (Choices.ofText_onSomeLine file _).map _

theorem OnSomeLine.file_eq {file src : String} {d : Diagnostic} (h : OnSomeLine file src d) :
    d.pos.file = file := by
  obtain ⟨l, _, h⟩ := h
  cases h <;> rfl

namespace Command

variable (c : Command)

theorem pairs_pos (args : List String) : OnlyFails (·.pos = c.pos) (c.pairs args) := by
  fun_induction c.pairs args with
  | case1 => exact .ok []
  | case2 last => exact .error rfl
  | case3 key value rest ih => exact ih.bind fun _ => .ok _

theorem bindings_pos (args : List String) : OnlyFails (·.pos = c.pos) (c.bindings args) :=
  (c.pairs_pos args).bind fun _ => .ok _

theorem formSettings_pos : OnlyFails (·.pos = c.pos) c.formSettings := by
  unfold formSettings
  split
  · exact (c.bindings_pos _).bind fun _ => .ok _
  · exact .error rfl

/-- A command that cannot be done has its fault where it stands. -/
theorem request_pos (d : Dialect) : OnlyFails (·.pos = c.pos) (c.request d) := by
  unfold request
  split
  · split
    · exact c.formSettings_pos.map _
    · exact (c.bindings_pos _).map _
    · exact (c.bindings_pos _).map _
    · split
      · exact .ok none
      · exact .error rfl
    · exact .error rfl
  · split
    · exact (c.bindings_pos _).map _
    · exact .error rfl

end Command

namespace Task

/-- A command fails with a fault where it stands. -/
theorem error_of_command {s : Sources} {chain : List String} {d : Dialect} {c : Command}
    {e : CompileError} (h : (Task.command d c).run s chain = .error e) :
    ∃ fault, e = .located ⟨c.pos, fault⟩ := by
  simp only [run] at h
  split at h
  · next fault hfault =>
    cases h
    obtain ⟨pos, fault⟩ := fault
    cases c.request_pos d _ hfault
    exact ⟨fault, rfl⟩
  · cases h
  · split at h
    · cases h
      exact ⟨_, rfl⟩
    · cases h

/-- How the file of a command cannot be loaded: there is no reading it, a name in it is not bound,
or its text has a fault. -/
inductive LoadFails (s : Sources) (d : Dialect) (c : Command) (bindings : Row) :
    CompileError → Prop
  | unreadable {cause : FileError} (h : s.text c.target = .error cause) :
      LoadFails s d c bindings (.unreadable c.target cause)
  | unbound {text : String} {fault : Diagnostic} (htext : s.text c.target = .ok text)
      (h : Source.substitute c.target text bindings = .error fault) :
      LoadFails s d c bindings (.located fault)
  | faulty {text src : String} {fault : Diagnostic} (htext : s.text c.target = .ok text)
      (hsrc : Source.substitute c.target text bindings = .ok src)
      (h : d.commands c.target src = .error fault) :
      LoadFails s d c bindings (.located fault)

theorem loadFails_of_run {s : Sources} {chain : List String} {d : Dialect} {c : Command}
    {bindings : Row} {e : CompileError}
    (h : (Task.load d c bindings).run s chain = .error e) : LoadFails s d c bindings e := by
  simp only [run] at h
  split at h
  · next cause htext =>
    cases h
    exact .unreadable htext
  next text htext =>
  split at h
  · next fault hfault =>
    cases h
    exact .unbound htext hfault
  next src hsrc =>
  split at h
  · next fault hfault =>
    cases h
    exact .faulty htext hsrc hfault
  · cases h

end Task

theorem Source.substitute_file (file src : String) (bindings : Row) :
    OnlyFails (·.pos.file = file) (Source.substitute file src bindings) := by
  unfold substitute
  split
  · exact .ok _
  · exact .error rfl

end SurveyForms
