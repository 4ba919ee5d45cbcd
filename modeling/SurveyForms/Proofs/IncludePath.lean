import SurveyForms.Proofs.FaultPlaces

/-! The way to an error. The commands whose files are open lead from the first file to the one
that the error is in, each in the file that the one before it opened, and the message names them
all. -/
namespace SurveyForms

/-- Commands that lead from one file to another, each in the file that the one before it opens. -/
inductive Leads : String → List Command → String → Prop
  | here (file : String) : Leads file [] file
  | into {c : Command} {cs : List Command} {last : String} (h : Leads c.target cs last) :
      Leads c.pos.file (c :: cs) last

theorem Leads.concat {first : String} {cs : List Command} {c : Command}
    (h : Leads first cs c.pos.file) : Leads first (cs ++ [c]) c.target := by
  generalize hlast : c.pos.file = last at h
  induction h with
  | here file =>
    subst hlast
    exact .into (.here c.target)
  | into _ ih => exact .into (ih hlast)

/-- What a command puts in front of an error in its file. -/
def Command.trace (c : Command) : String :=
  c.pos.toString ++ ": @" ++ c.name ++ " " ++ c.first ++ ": "

namespace CompileError

/-- An error as it is passed on through files that these commands opened, outermost first. -/
def through (inner : CompileError) (cs : List Command) : CompileError := cs.foldr .within inner

/-- An error of a file itself: it cannot be read, or there is a fault in it. -/
inductive Of (file : String) : CompileError → Prop
  | unreadable (cause : FileError) : Of file (.unreadable file cause)
  | fault {d : Diagnostic} (h : d.pos.file = file) : Of file (.located d)

variable (inner : CompileError) (cs : List Command)

theorem message_through :
    (inner.through cs).message = String.join (cs.map Command.trace) ++ inner.message := by
  induction cs with
  | nil => exact String.empty_append.symm
  | cons c cs ih =>
    have htrace : (inner.through (c :: cs)).message =
        c.trace ++ (inner.through cs).message := by
      simp only [through, List.foldr_cons, message, Command.trace]
    rw [htrace, ih, List.map_cons, String.join_cons, String.append_assoc]

theorem diagnostic?_through : (inner.through cs).diagnostic? = inner.diagnostic? := by
  induction cs with
  | nil => rfl
  | cons c cs ih => exact ih

theorem isMissing_through : (inner.through cs).isMissing = inner.isMissing := by
  induction cs with
  | nil => rfl
  | cons c cs ih => exact ih

end CompileError

def Task.closes? : Task → Option Command
  | .leave c => some c
  | _ => none

/-- The commands whose files are closed by these tasks, outermost first. -/
def openedBy (agenda : List Task) : List Command := (agenda.filterMap Task.closes?).reverse

theorem openedBy_leave (c : Command) (rest : List Task) :
    openedBy (.leave c :: rest) = openedBy rest ++ [c] := by
  simp [openedBy, Task.closes?]

theorem openedBy_cons {t : Task} (h : t.closes? = none) (rest : List Task) :
    openedBy (t :: rest) = openedBy rest := by
  rw [openedBy, List.filterMap_cons_none h, openedBy]

/-- Closing a file does not fail, so at an error the files of the tasks behind it are open. -/
theorem openedBy_of_error {s : Sources} {chain : List String} {t : Task} {e : CompileError}
    (h : t.run s chain = .error e) (rest : List Task) : openedBy (t :: rest) = openedBy rest := by
  cases t with
  | leave c => cases h
  | command d c => exact openedBy_cons rfl rest
  | load d c bindings => exact openedBy_cons rfl rest

theorem CompileError.passed_eq_through (e : CompileError) (agenda : List Task) :
    e.passed agenda = e.through (openedBy agenda) := by
  induction agenda generalizing e with
  | nil => rfl
  | cons t rest ih =>
    cases t with
    | leave c =>
      rw [openedBy_leave, through, List.foldr_append]
      exact ih (.within c e)
    | command d c => exact (ih e).trans (by rw [openedBy_cons rfl])
    | load d c bindings => exact (ih e).trans (by rw [openedBy_cons rfl])

namespace Session

/-- The tasks of an agenda by files: those in front of a closing task belong to the file that is
closed there, and the command that opened it belongs to the file around it. The file is that of
the first tasks. -/
inductive Nested (name : String) : String → List Task → Prop
  | entry : Nested name name []
  | command {d : Dialect} {c : Command} {rest : List Task} (h : Nested name c.pos.file rest) :
      Nested name c.pos.file (.command d c :: rest)
  | leave {c : Command} {rest : List Task} (hname : c.name = "include" ∨ c.name = "choices")
      (h : Nested name c.pos.file rest) : Nested name c.target (.leave c :: rest)
  | load {d : Dialect} {c : Command} {bindings : Row} {rest : List Task}
      (h : Nested name c.target (.leave c :: rest)) :
      Nested name c.target (.load d c bindings :: .leave c :: rest)

namespace Nested

variable {name file : String} {agenda : List Task}

theorem commands {d : Dialect} {cs : List Command} (h : Nested name file agenda)
    (hcs : ∀ c ∈ cs, c.pos.file = file) : Nested name file (cs.map (.command d) ++ agenda) := by
  induction cs with
  | nil => exact h
  | cons c cs ih =>
    obtain ⟨rfl, hcs⟩ := List.forall_mem_cons.mp hcs
    exact .command (ih hcs)

/-- The commands that opened the files lead to the innermost. -/
theorem leads (h : Nested name file agenda) : Leads name (openedBy agenda) file := by
  induction h with
  | entry => exact .here name
  | command _ ih => rwa [openedBy_cons rfl]
  | leave _ _ ih =>
    rw [openedBy_leave]
    exact ih.concat
  | load _ ih => rwa [openedBy_cons rfl]

theorem name_of_mem (h : Nested name file agenda) :
    ∀ c ∈ openedBy agenda, c.name = "include" ∨ c.name = "choices" := by
  induction h with
  | entry => intro c hc; cases hc
  | command _ ih => rwa [openedBy_cons rfl]
  | leave hname _ ih =>
    rw [openedBy_leave]
    exact List.forall_mem_append.mpr ⟨ih, by simpa using hname⟩
  | load _ ih => rwa [openedBy_cons rfl]

/-- One step leaves the tasks sorted by files. -/
theorem step {s : Sources} {a b : Session} (h : Nested name file a.agenda) (hstep : Step s a b) :
    ∃ file', Nested name file' b.agenda := by
  obtain ⟨t, rest, chain, ts, hagenda, hrun, rfl⟩ := step_iff.mp hstep
  rw [hagenda] at h
  cases h with
  | @command d c _ h =>
    cases hrequest : c.request d with
    | error fault => simp [Task.run, hrequest] at hrun
    | ok request =>
      cases request with
      | none =>
        simp only [Task.run, hrequest, Except.ok.injEq, Prod.mk.injEq] at hrun
        obtain ⟨rfl, rfl⟩ := hrun
        exact ⟨_, h⟩
      | some r =>
        simp only [Task.run, hrequest] at hrun
        split at hrun
        · cases hrun
        · cases hrun
          exact ⟨_, .load (.leave (Command.name_of_request hrequest) h)⟩
  | leave _ h =>
    cases hrun
    exact ⟨_, h⟩
  | load h =>
    obtain ⟨text, src, cs, _, _, hcs, rfl, rfl⟩ := Task.load_eq_ok hrun
    exact ⟨_, h.commands (Dialect.file_of_mem_commands hcs)⟩

/-- A task fails with an error of the file it belongs to. -/
theorem error_of {s : Sources} {chain : List String} {t : Task} {rest : List Task}
    {e : CompileError} (h : Nested name file (t :: rest)) (hrun : t.run s chain = .error e) :
    e.Of file := by
  cases h with
  | command _ =>
    obtain ⟨fault, rfl⟩ := Task.error_of_command hrun
    exact .fault rfl
  | leave _ _ => cases hrun
  | @load d c bindings _ _ =>
    cases Task.loadFails_of_run hrun with
    | unreadable h => exact .unreadable _
    | unbound _ h => exact .fault (Source.substitute_file _ _ _ _ h)
    | faulty _ _ h => exact .fault (d.commands_onSomeLine _ _ _ h).file_eq

end Nested

/-- At every moment the tasks are sorted by files. -/
theorem nested_of_reaches {s : Sources} {name src : String} {survey : Survey}
    (hsurvey : Survey.ofSource name src = .ok survey) {a : Session}
    (h : Reaches s (start s name survey) a) : ∃ file, Nested name file a.agenda := by
  induction h with
  | refl =>
    have hcommands : Dialect.commands name src .survey = .ok survey.commands :=
      Dialect.commands_survey hsurvey
    rw [start, ← List.append_nil (survey.commands.map _)]
    exact ⟨name, Nested.entry.commands (Dialect.file_of_mem_commands hcommands)⟩
  | tail _ hstep ih =>
    obtain ⟨file, hnested⟩ := ih
    exact hnested.step hstep

/-- The open files are those that the commands opened, and the first. -/
theorem Open.chain_eq_openedBy {s : Sources} {entry : String} {met : Command → Prop}
    {held : String → Prop} {chain : List String} {agenda : List Task}
    (h : Open s entry met held chain agenda) :
    chain = ((openedBy agenda).map fun c => s.canonical c.target).reverse ++ [entry] := by
  induction h with
  | entry => rfl
  | command _ _ _ ih => rwa [openedBy_cons rfl]
  | leave _ _ _ _ _ ih =>
    rw [openedBy_leave, List.map_append, List.reverse_append, ih]
    rfl
  | load _ ih => rwa [openedBy_cons rfl]

end Session

/-- Compiling a text, if there is one to compile, comes to this error while files are open that
these commands opened, outermost first. The chain of open files is innermost first. -/
inductive FailsAt (s : Sources) (name : String) (text : Except FileError String) :
    List String → List Command → CompileError → Prop
  | unreadable {cause : FileError} (h : text = .error cause) :
      FailsAt s name text [] [] (.unreadable name cause)
  | faulty {src : String} {d : Diagnostic} (htext : text = .ok src)
      (h : Survey.ofSource name src = .error d) :
      FailsAt s name text [s.canonical name] [] (.located d)
  | task {src : String} {survey : Survey} {a : Session} {t : Task} {rest : List Task}
      {e : CompileError} (htext : text = .ok src) (hsurvey : Survey.ofSource name src = .ok survey)
      (hreach : Session.Reaches s (.start s name survey) a) (hagenda : a.agenda = t :: rest)
      (hrun : t.run s a.chain = .error e) :
      FailsAt s name text a.chain (openedBy a.agenda) e

/-- What an error tells that is passed on through the files of these commands. -/
structure Traced (s : Sources) (name : String) (chain : List String) (cs : List Command)
    (inner : CompileError) : Prop where
  message : (inner.through cs).message = String.join (cs.map Command.trace) ++ inner.message
  /-- The commands lead to the file that has the error. -/
  place : ∃ file, Leads name cs file ∧ inner.Of file
  named : ∀ c ∈ cs, c.name = "include" ∨ c.name = "choices"
  /-- The files that the commands opened are the open ones; only a first file that cannot be read
  is not open itself. -/
  opened : chain = (cs.map fun c => s.canonical c.target).reverse ++ [s.canonical name] ∨
    chain = [] ∧ cs = [] ∧ ∃ cause, inner = .unreadable name cause
  /-- At every depth the error is of the same kind. -/
  kept : ∀ outer inside, cs = outer ++ inside →
    (inner.through inside).diagnostic? = inner.diagnostic? ∧
      (inner.through inside).isMissing = inner.isMissing

theorem FailsAt.traced {s : Sources} {name : String} {text : Except FileError String}
    {chain : List String} {cs : List Command} {inner : CompileError}
    (h : FailsAt s name text chain cs inner) : Traced s name chain cs inner := by
  have hmessage := inner.message_through cs
  have hkept : ∀ outer inside, cs = outer ++ inside →
      (inner.through inside).diagnostic? = inner.diagnostic? ∧
        (inner.through inside).isMissing = inner.isMissing :=
    fun _ inside _ => ⟨inner.diagnostic?_through inside, inner.isMissing_through inside⟩
  cases h with
  | unreadable _ =>
    exact ⟨hmessage, ⟨name, .here name, .unreadable _⟩, fun _ hc => (by cases hc),
      .inr ⟨rfl, rfl, _, rfl⟩, hkept⟩
  | faulty _ h =>
    have hfile := (Survey.ofText_onSomeLine _ _ _ h).file_eq
    exact ⟨hmessage, ⟨name, .here name, .fault hfile⟩, fun _ hc => (by cases hc), .inl rfl,
      hkept⟩
  | task _ hsurvey hreach hagenda hrun =>
    obtain ⟨file, hnested⟩ := Session.nested_of_reaches hsurvey hreach
    have hopen := Session.open_of_reaches hsurvey hreach
    exact ⟨hmessage, ⟨file, hnested.leads, (hagenda ▸ hnested).error_of hrun⟩,
      hnested.name_of_mem, .inl hopen.chain_eq_openedBy, hkept⟩

namespace Form

theorem ofText_error_iff (s : Sources) (now : Moment) (name src : String) (e : CompileError) :
    (Form.ofText s now name src).result = .error e ↔
      ∃ chain cs inner, FailsAt s name (.ok src) chain cs inner ∧ e = inner.through cs := by
  rw [← Logged.outcome_eq_error]
  constructor
  · intro h
    cases hsurvey : Survey.ofSource name src with
    | error d =>
      rw [outcome_ofText_of_error hsurvey] at h
      cases h
      exact ⟨_, _, _, .faulty rfl hsurvey, rfl⟩
    | ok survey =>
      obtain ⟨a, hreach, hstop⟩ := session_of_ofText s now hsurvey
      rw [h] at hstop
      obtain ⟨t, rest, inner, hagenda, hrun, rfl⟩ := hstop.task
      refine ⟨_, _, _, .task rfl hsurvey hreach hagenda hrun, ?_⟩
      rw [hagenda, openedBy_of_error hrun, CompileError.passed_eq_through]
  · rintro ⟨chain, cs, inner, h, rfl⟩
    cases h with
    | unreadable h => cases h
    | faulty htext h =>
      cases htext
      exact outcome_ofText_of_error h
    | @task _ _ a t rest _ htext hsurvey hreach hagenda hrun =>
      cases htext
      obtain ⟨last, hreach', hstop⟩ := session_of_ofText s now hsurvey
      have hfails : a.Stops s (.error (inner.passed rest)) :=
        .failed (by simp only [Session.next, hagenda, hrun])
      rw [(hstop.unique hreach' hreach hfails).2, hagenda, openedBy_of_error hrun,
        CompileError.passed_eq_through]

theorem ofFile_error_iff (s : Sources) (now : Moment) (path : String) (e : CompileError) :
    (Form.ofFile s now path).result = .error e ↔
      ∃ chain cs inner, FailsAt s path (s.text path) chain cs inner ∧ e = inner.through cs := by
  rw [← Logged.outcome_eq_error, outcome_ofFile]
  cases htext : s.text path with
  | error cause =>
    constructor
    · rintro ⟨⟩
      exact ⟨_, _, _, .unreadable rfl, rfl⟩
    · rintro ⟨chain, cs, inner, h, rfl⟩
      cases h with
      | unreadable h => cases h; rfl
      | faulty h _ => cases h
      | task h _ _ _ _ => cases h
  | ok src => exact Logged.outcome_eq_error.trans (ofText_error_iff s now path src e)

/-- An error names its whole include path. Compiling fails where some task of its session does,
or at the first file, and the error is the one met there, passed on by the commands whose files
are open: its text is theirs, outermost first, and then its own. -/
theorem errors_name_include_path (s : Sources) (now : Moment) (name : String) (e : CompileError) :
    (∀ src, (Form.ofText s now name src).result = .error e ↔ ∃ chain cs inner,
      FailsAt s name (.ok src) chain cs inner ∧ Traced s name chain cs inner ∧
        e = inner.through cs) ∧
    ((Form.ofFile s now name).result = .error e ↔ ∃ chain cs inner,
      FailsAt s name (s.text name) chain cs inner ∧ Traced s name chain cs inner ∧
        e = inner.through cs) := by
  have htraced (text : Except FileError String) :
      (∃ chain cs inner, FailsAt s name text chain cs inner ∧ e = inner.through cs) ↔
        ∃ chain cs inner, FailsAt s name text chain cs inner ∧ Traced s name chain cs inner ∧
          e = inner.through cs := by
    constructor
    · rintro ⟨chain, cs, inner, h, he⟩
      exact ⟨chain, cs, inner, h, h.traced, he⟩
    · rintro ⟨chain, cs, inner, h, _, he⟩
      exact ⟨chain, cs, inner, h, he⟩
  exact ⟨fun src => (ofText_error_iff s now name src e).trans (htraced _),
    (ofFile_error_iff s now name e).trans (htraced _)⟩

-- a choices file inside an included survey, each found from the file around it
example :
    ((Form.ofText (FileSet.ofList [("/a/x", "@choices \"b/y\""), ("/a/b/y", "@form f")]).sources
      ⟨0, 0⟩ "/form" "@include \"a/x\"").outcome.mapError (·.message)) =
        .error ("/form:1:1: @include a/x: " ++ ("/a/x:1:1: @choices b/y: " ++
          "/a/b/y:1:1: unknown command: @form")) := by
  decide +kernel

end Form
end SurveyForms
