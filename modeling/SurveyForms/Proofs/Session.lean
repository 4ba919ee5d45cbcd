import Mathlib.Logic.Relation
import SurveyForms.Proofs.Resolution

/-! Compiling as a session that does one task after another, with the chain of open files as its
state: a command opens a file, the file is loaded, its commands are done in source order, and the
file is left. Main result: a session stops, and it stops as the compiler does, with the same
error. -/
namespace SurveyForms

inductive Dialect where
  | survey
  | choices
  deriving DecidableEq

/-- The statements without a body, in source order, those inside blocks in their places. -/
def Forest.leaves : Forest α β → List α
  | .nil => []
  | .leaf a rest => a :: rest.leaves
  | .block _ body rest => body.leaves ++ rest.leaves

def SurveyLeaf.command? : SurveyLeaf → Option Command
  | .command c => some c
  | _ => none

def ChoicesLeaf.command? : ChoicesLeaf → Option Command
  | .command c => some c
  | _ => none

def Survey.commands (f : Survey) : List Command := f.leaves.filterMap SurveyLeaf.command?

def Choices.commands (f : Choices) : List Command := f.leaves.filterMap ChoicesLeaf.command?

theorem Survey.commands_block (h : SurveyHeader) (body rest : Survey) :
    Survey.commands (.block h body rest) = Survey.commands body ++ Survey.commands rest :=
  List.filterMap_append

theorem Choices.commands_block (l : ChoiceList) (body rest : Choices) :
    Choices.commands (.block l body rest) = Choices.commands body ++ Choices.commands rest :=
  List.filterMap_append

/-- The commands of a source text. -/
def Dialect.commands (file src : String) : Dialect → Except Diagnostic (List Command)
  | .survey => (Survey.ofSource file src).map Survey.commands
  | .choices => (Choices.ofText file src).map Choices.commands

theorem Dialect.commands_survey {file src : String} {survey : Survey}
    (h : Survey.ofSource file src = .ok survey) :
    Dialect.commands file src .survey = .ok survey.commands := by
  rw [commands, h]
  rfl

theorem Dialect.commands_choices {file src : String} {choices : Choices}
    (h : Choices.ofText file src = .ok choices) :
    Dialect.commands file src .choices = .ok choices.commands := by
  rw [commands, h]
  rfl

/-- What a command asks for: a file in one of the languages, with bindings, or no file. -/
def Command.request (c : Command) : Dialect → Except Diagnostic (Option (Dialect × Row))
  | .survey =>
    match c.name with
    | "form" => c.formSettings.map fun _ => none
    | "choices" => (c.bindings c.others).map fun bindings => some (.choices, bindings)
    | "include" => (c.bindings c.others).map fun bindings => some (.survey, bindings)
    | "required" =>
      if c.others.isEmpty then .ok none else .error ⟨c.pos, .requiredArguments c.args.length⟩
    | _ => .error ⟨c.pos, .unknownCommand c.name⟩
  | .choices =>
    if c.name = "include" then
      (c.bindings c.others).map fun bindings => some (.choices, bindings)
    else .error ⟨c.pos, .unknownCommand c.name⟩

inductive Task where
  | command (d : Dialect) (c : Command)
  /-- Reads the file of a command. It counts as open already. -/
  | load (d : Dialect) (c : Command) (bindings : Row)
  /-- Closes the file of a command. -/
  | leave (c : Command)

/-- The open files, innermost first, and what is still to be done. -/
structure Session where
  chain : List String
  agenda : List Task

/-- A task: the chain behind it and the tasks it puts in its own place. -/
def Task.run (s : Sources) (chain : List String) :
    Task → Except CompileError (List String × List Task)
  | .command d c =>
    match c.request d with
    | .error fault => .error (.located fault)
    | .ok none => .ok (chain, [])
    | .ok (some (d', bindings)) =>
      if s.canonical c.target ∈ chain then
        let between := (chain.takeWhile (· ≠ s.canonical c.target)).reverse
        .error (.located ⟨c.pos, .cycle (s.canonical c.target :: between ++
          [s.canonical c.target])⟩)
      else .ok (s.canonical c.target :: chain, [.load d' c bindings, .leave c])
  | .load d c bindings =>
    match s.text c.target with
    | .error cause => .error (.unreadable c.target cause)
    | .ok text =>
      match Source.substitute c.target text bindings with
      | .error fault => .error (.located fault)
      | .ok src =>
        match d.commands c.target src with
        | .error fault => .error (.located fault)
        | .ok cs => .ok (chain, cs.map (.command d))
  | .leave _ => .ok (chain.tail, [])

/-- An error as it is passed on by the commands whose files are open. -/
def CompileError.passed (e : CompileError) : List Task → CompileError
  | [] => e
  | .leave c :: rest => (CompileError.within c e).passed rest
  | _ :: rest => e.passed rest

namespace Session

/-- The first task of the agenda is done. `none` if nothing is left to do. -/
def next (s : Sources) (a : Session) : Option (Except CompileError Session) :=
  match a.agenda with
  | [] => none
  | t :: rest =>
    match t.run s a.chain with
    | .error e => some (.error (e.passed rest))
    | .ok (chain, tasks) => some (.ok ⟨chain, tasks ++ rest⟩)

def Step (s : Sources) (a b : Session) : Prop := a.next s = some (.ok b)

def Reaches (s : Sources) : Session → Session → Prop := Relation.ReflTransGen (Step s)

/-- The session of a survey under a name. -/
def start (s : Sources) (name : String) (survey : Survey) : Session :=
  ⟨[s.canonical name], survey.commands.map (.command .survey)⟩

theorem step_of_run {s : Sources} {chain chain' : List String} {t : Task} {ts : List Task}
    (h : t.run s chain = .ok (chain', ts)) (rest : List Task) :
    Step s ⟨chain, t :: rest⟩ ⟨chain', ts ++ rest⟩ := by
  simp only [Step, next, h]

theorem step_iff {s : Sources} {a b : Session} : Step s a b ↔
    ∃ t rest chain ts, a.agenda = t :: rest ∧ t.run s a.chain = .ok (chain, ts) ∧
      b = ⟨chain, ts ++ rest⟩ := by
  unfold Step next
  split
  · next hnil => simp [hnil]
  · next t rest hagenda =>
    split
    · next e herror => simp [hagenda, herror]
    · next chain ts hrun =>
      simp only [hagenda, List.cons.injEq, Option.some.injEq, Except.ok.injEq]
      constructor
      · rintro rfl
        exact ⟨t, rest, chain, ts, ⟨rfl, rfl⟩, hrun, rfl⟩
      · rintro ⟨_, _, _, _, ⟨rfl, rfl⟩, hrun', rfl⟩
        cases hrun.symm.trans hrun'
        rfl

end Session

/-- Doing these tasks under a chain ends like a computation: the chain is as before and the tasks
are done, or one of them, or one put in their place, fails with an error that is passed on. -/
structure Executes (s : Sources) (chain : List String) (ts : List Task)
    (outcome : Except CompileError Unit) : Prop where
  ok : outcome = .ok () → ∀ rest, Session.Reaches s ⟨chain, ts ++ rest⟩ ⟨chain, rest⟩
  error : ∀ e, outcome = .error e → ∃ chain' t pending inner,
    (∀ rest, Session.Reaches s ⟨chain, ts ++ rest⟩ ⟨chain', t :: (pending ++ rest)⟩) ∧
      t.run s chain' = .error inner ∧ e = inner.passed pending

open Session (Step Reaches step_of_run)

namespace CompileError

theorem passed_append (e : CompileError) (a b : List Task) :
    e.passed (a ++ b) = (e.passed a).passed b := by
  induction a generalizing e with
  | nil => rfl
  | cons t a ih => cases t <;> exact ih _

/-- Only files that are open pass an error on. -/
theorem passed_commands (e : CompileError) (d : Dialect) (cs : List Command) :
    e.passed (cs.map (.command d)) = e := by
  induction cs with
  | nil => rfl
  | cons c cs ih => exact ih

end CompileError

namespace Executes

variable {s : Sources} {chain : List String}

theorem nil (s : Sources) (chain : List String) : Executes s chain [] (.ok ()) :=
  ⟨fun _ _ => .refl, fun _ h => by cases h⟩

/-- A task, and commands behind it that are done if it succeeds. -/
theorem cons {t : Task} {d : Dialect} {cs : List Command}
    {outcome outcome' : Except CompileError Unit} (h : Executes s chain [t] outcome)
    (h' : Executes s chain (cs.map (.command d)) outcome') :
    Executes s chain (t :: cs.map (.command d)) (outcome.bind fun _ => outcome') := by
  cases outcome with
  | error e =>
    refine ⟨fun hok => (by cases hok), fun e' he' => ?_⟩
    cases he'
    obtain ⟨chain', u, pending, inner, hreach, hrun, he⟩ := h.error e rfl
    refine ⟨chain', u, pending ++ cs.map (.command d), inner, fun rest => ?_, hrun, ?_⟩
    · rw [List.append_assoc]
      exact hreach _
    · rw [CompileError.passed_append, CompileError.passed_commands, he]
  | ok =>
    refine ⟨fun hok rest => ?_, fun e he => ?_⟩
    · exact (h.ok rfl _).trans (h'.ok hok rest)
    · obtain ⟨chain', u, pending, inner, hreach, hrun, he⟩ := h'.error e he
      exact ⟨chain', u, pending, inner, fun rest => (h.ok rfl _).trans (hreach rest), hrun, he⟩

theorem commands {d : Dialect} {run : Command → Except CompileError Unit} {cs : List Command}
    (h : ∀ c ∈ cs, Executes s chain [.command d c] (run c)) :
    Executes s chain (cs.map (.command d)) (forM cs run) := by
  induction cs with
  | nil => exact nil s chain
  | cons c cs ih =>
    obtain ⟨hc, hcs⟩ := List.forall_mem_cons.mp h
    exact hc.cons (ih hcs)

theorem of_error {t : Task} {e : CompileError} (h : t.run s chain = .error e) :
    Executes s chain [t] (.error e) := by
  refine ⟨fun hok => (by cases hok), fun e' he' => ?_⟩
  cases he'
  exact ⟨chain, t, [], e, fun _ => .refl, h, rfl⟩

theorem of_done {t : Task} (h : t.run s chain = .ok (chain, [])) :
    Executes s chain [t] (.ok ()) :=
  ⟨fun _ rest => .single (step_of_run h rest), fun e he => by cases he⟩

theorem of_run {t : Task} {ts : List Task} {outcome : Except CompileError Unit}
    (hrun : t.run s chain = .ok (chain, ts)) (h : Executes s chain ts outcome) :
    Executes s chain [t] outcome := by
  refine ⟨fun hok rest => ?_, fun e he => ?_⟩
  · exact (h.ok hok rest).head (step_of_run hrun rest)
  · obtain ⟨chain', u, pending, inner, hreach, hrun', he⟩ := h.error e he
    exact ⟨chain', u, pending, inner, fun rest => (hreach rest).head (step_of_run hrun rest), hrun',
      he⟩

/-- A file is opened, loaded and left again, and errors inside it name its command. -/
theorem opened {d d' : Dialect} {c : Command} {bindings : Row}
    {outcome : Except CompileError Unit} (hrequest : c.request d = .ok (some (d', bindings)))
    (hopen : s.canonical c.target ∉ chain)
    (h : Executes s (s.canonical c.target :: chain) [.load d' c bindings] outcome) :
    Executes s chain [.command d c] (outcome.mapError (.within c)) := by
  have hrun : (Task.command d c).run s chain =
      .ok (s.canonical c.target :: chain, [.load d' c bindings, .leave c]) := by
    simp only [Task.run, hrequest, if_neg hopen]
  cases outcome with
  | ok =>
    refine ⟨fun _ rest => ?_, fun e he => (by cases he)⟩
    have hleave : (Task.leave c).run s (s.canonical c.target :: chain) = .ok (chain, []) := rfl
    exact ((h.ok rfl (.leave c :: rest)).head (step_of_run hrun rest)).tail
      (step_of_run hleave rest)
  | error e =>
    refine ⟨fun hok => (by cases hok), fun e' he' => ?_⟩
    cases he'
    obtain ⟨chain', t, pending, inner, hreach, hrun', he⟩ := h.error e rfl
    refine ⟨chain', t, pending ++ [.leave c], inner, fun rest => ?_, hrun', ?_⟩
    · rw [List.append_assoc]
      exact (hreach (.leave c :: rest)).head (step_of_run hrun rest)
    · rw [CompileError.passed_append, ← he]
      rfl

end Executes

/-- How a computation ends, its value forgotten. -/
def Logged.outcome (x : Logged ε α) : Except ε Unit := x.result.map fun _ => ()

namespace Logged

theorem outcome_bind (x : Logged ε α) (f : α → Logged ε β) :
    (x >>= f).outcome = x.result.bind fun a => (f a).outcome := by
  rw [outcome, result_bind]
  cases x.result <;> rfl

theorem outcome_bind_pure (x : Logged ε α) (f : α → β) :
    (x >>= fun a => pure (f a)).outcome = x.outcome := by
  rw [outcome_bind, outcome]
  cases x.result <;> rfl

/-- A computation and one behind it whose end does not depend on the value before. -/
theorem outcome_bind_of {x : Logged ε α} {f : α → Logged ε β} {outcome : Except ε Unit}
    (h : ∀ a, (f a).outcome = outcome) : (x >>= f).outcome = x.outcome.bind fun _ => outcome := by
  rw [outcome_bind, Logged.outcome]
  cases x.result with
  | error e => rfl
  | ok a => exact h a

theorem outcome_mapError (f : ε → δ) (x : Logged ε α) :
    (mapError f x).outcome = x.outcome.mapError f := by
  rw [outcome, outcome, mapError]
  cases x.result <;> rfl

end Logged

open Logged (outcome_bind outcome_bind_pure outcome_bind_of outcome_mapError)

/-- A command that opens a file is done like the inclusion of the file, if this goes for the
commands of the file. -/
theorem executes_opening {s : Sources} {chain : List String} {d d' : Dialect} {c : Command}
    {read : String → String → Except Diagnostic α} {commands : α → List Command}
    {f : List String → α → Compiling β}
    (hrequest : c.request d = (c.bindings c.others).map fun bindings => some (d', bindings))
    (hread : ∀ file src, d'.commands file src = (read file src).map commands)
    (h : s.unopened (s.canonical c.target :: chain) < s.unopened chain → ∀ a,
      Executes s (s.canonical c.target :: chain) ((commands a).map (.command d'))
        (f (s.canonical c.target :: chain) a).outcome) :
    Executes s chain [.command d c] (Compiling.diagnose (c.bindings c.others) >>= fun bindings =>
      s.inclusion chain c bindings fun path src opened _ =>
        Compiling.diagnose (read path src) >>= f opened).outcome := by
  rw [outcome_bind]
  cases hbindings : c.bindings c.others with
  | error fault =>
    refine Executes.of_error ?_
    simp only [Task.run, hrequest, hbindings]
    rfl
  | ok bindings =>
  have hrequest : c.request d = .ok (some (d', bindings)) := by
    rw [hrequest, hbindings]
    rfl
  change Executes s chain [.command d c] (s.inclusion chain c bindings _).outcome
  unfold Sources.inclusion
  simp only [outcome_bind, Logged.write, Except.bind]
  split
  · next hopen =>
    refine Executes.of_error ?_
    have hopen : s.canonical c.target ∈ chain := hopen
    simp only [Task.run, hrequest, if_pos hopen]
    rfl
  next hopen =>
  rw [outcome_mapError]
  refine Executes.opened hrequest hopen ?_
  simp only [outcome_bind, Except.bind]
  split
  · next cause htext =>
    refine Executes.of_error ?_
    have htext : s.text c.target = .error cause := htext
    simp only [Task.run, htext]
    rfl
  next text htext =>
  have htext : s.text c.target = .ok text := htext
  have hlater := h (Sources.unopened_cons_lt (Sources.known_of_text htext) hopen)
  rw [outcome_bind]
  change Executes s _ _
    (((Source.substitute c.target text bindings).mapError .located).bind fun src =>
      (Compiling.diagnose (read c.target src) >>= f (s.canonical c.target :: chain)).outcome)
  cases hsubst : Source.substitute c.target text bindings with
  | error fault =>
    refine Executes.of_error ?_
    simp only [Task.run, htext, hsubst]
  | ok src =>
    have hcommands := hread c.target src
    change Executes s _ _ (Compiling.diagnose (read c.target src) >>= _).outcome
    rw [outcome_bind]
    cases hparsed : read c.target src with
    | error fault =>
      refine Executes.of_error ?_
      rw [hparsed] at hcommands
      simp only [Task.run, htext, hsubst, hcommands, Except.map]
    | ok a =>
      refine Executes.of_run ?_ (hlater a)
      rw [hparsed] at hcommands
      simp only [Task.run, htext, hsubst, hcommands, Except.map]

/-- Replacing the commands of a choices source ends like doing them in order. -/
theorem Choices.outcome_resolve (command : Command → Compiling ChoiceTree) (f : Choices) :
    (f.resolve command).outcome = forM f.commands fun c => (command c).outcome := by
  induction f with
  | nil => rfl
  | leaf a rest ih =>
    cases a with
    | comment pos text => exact ih
    | choice c => exact (outcome_bind_pure _ _).trans ih
    | command c => exact outcome_bind_of fun tree => (outcome_bind_pure _ _).trans ih
  | block l body rest ihbody ihrest =>
    rw [commands_block, List.forM_append, ← ihbody, ← ihrest]
    exact outcome_bind_of fun tree => outcome_bind_pure _ _

/-- Replacing the commands of a survey source ends like doing them in order. -/
theorem Survey.outcome_resolve (command : Command → Compiling FormTree) (f : Survey) :
    (f.resolve command).outcome = forM f.commands fun c => (command c).outcome := by
  induction f with
  | nil => rfl
  | leaf a rest ih =>
    cases a with
    | comment pos text => exact ih
    | question q => exact (outcome_bind_pure _ _).trans ih
    | command c => exact outcome_bind_of fun tree => (outcome_bind_pure _ _).trans ih
  | block h body rest ihbody ihrest =>
    rw [commands_block, List.forM_append, ← ihbody, ← ihrest]
    exact outcome_bind_of fun tree => outcome_bind_pure _ _

/-- A choices source is compiled as its commands are done. -/
theorem executes_ofChoices (s : Sources) (chain : List String) (choices : Choices) :
    Executes s chain (choices.commands.map (.command .choices))
      (ChoiceTree.ofChoices s chain choices).outcome := by
  rw [ChoiceTree.ofChoices, Choices.outcome_resolve]
  refine Executes.commands fun c _ => ?_
  split
  · next hname =>
    have hrequest : c.request .choices =
        (c.bindings c.others).map fun bindings => some (.choices, bindings) := if_pos hname
    refine executes_opening hrequest (fun _ _ => rfl) fun smaller file => ?_
    exact executes_ofChoices s (s.canonical c.target :: chain) file
  · next hname =>
    refine Executes.of_error ?_
    simp only [Task.run, Command.request, if_neg hname]
termination_by s.unopened chain

/-- A survey source is compiled as its commands are done. -/
theorem executes_ofSurvey (s : Sources) (chain : List String) (survey : Survey) :
    Executes s chain (survey.commands.map (.command .survey))
      (FormTree.ofSurvey s chain survey).outcome := by
  rw [FormTree.ofSurvey, Survey.outcome_resolve]
  refine Executes.commands fun c _ => ?_
  split
  · next hname =>
    rw [outcome_bind_pure]
    cases hsettings : c.formSettings with
    | error fault =>
      refine Executes.of_error ?_
      simp only [Task.run, Command.request, hname, hsettings]
      rfl
    | ok settings =>
      refine Executes.of_done ?_
      simp only [Task.run, Command.request, hname, hsettings]
      rfl
  · next hname =>
    have hrequest : c.request .survey =
        (c.bindings c.others).map fun bindings => some (.choices, bindings) := by
      simp only [Command.request, hname]
    refine executes_opening hrequest (fun _ _ => rfl) fun smaller file => ?_
    rw [outcome_bind_pure]
    exact executes_ofChoices s (s.canonical c.target :: chain) file
  · next hname =>
    have hrequest : c.request .survey =
        (c.bindings c.others).map fun bindings => some (.survey, bindings) := by
      simp only [Command.request, hname]
    refine executes_opening hrequest (fun _ _ => rfl) fun smaller file => ?_
    rw [outcome_bind_pure]
    exact executes_ofSurvey s (s.canonical c.target :: chain) file
  · next hname =>
    split
    · next honly =>
      refine Executes.of_done ?_
      simp only [Task.run, Command.request, hname, if_pos honly]
    · next hmore =>
      refine Executes.of_error ?_
      simp only [Task.run, Command.request, hname, if_neg hmore]
  · refine Executes.of_error ?_
    simp [Task.run, Command.request]
termination_by s.unopened chain

namespace Session

variable {s : Sources}

/-- How a session stops: with nothing left to do, or at a task that fails. -/
inductive Stops (s : Sources) (a : Session) : Except CompileError Unit → Prop
  | done (h : a.agenda = []) : Stops s a (.ok ())
  | failed {e : CompileError} (h : a.next s = some (.error e)) : Stops s a (.error e)

theorem Stops.not_step {a b : Session} {outcome : Except CompileError Unit}
    (h : a.Stops s outcome) : ¬ Step s a b := by
  intro hstep
  obtain ⟨t, rest, chain, ts, hagenda, hrun, -⟩ := step_iff.mp hstep
  cases h with
  | done hdone => simp [hdone] at hagenda
  | failed hfailed => simp [next, hagenda, hrun] at hfailed

/-- A session that fails does so at its first task, and the open files pass the error on. -/
theorem Stops.task {a : Session} {e : CompileError} (h : a.Stops s (.error e)) :
    ∃ t rest inner, a.agenda = t :: rest ∧ t.run s a.chain = .error inner ∧
      e = inner.passed rest := by
  cases h with
  | failed h =>
    unfold next at h
    split at h
    · cases h
    · next t rest hagenda =>
      split at h
      · next inner hrun =>
        cases h
        exact ⟨t, rest, inner, hagenda, hrun, rfl⟩
      · cases h

/-- A session stops at one place only, and in one way. -/
theorem Stops.unique {a b c : Session} {outcome outcome' : Except CompileError Unit}
    (hb : Reaches s a b) (hstop : b.Stops s outcome) (hc : Reaches s a c)
    (hstop' : c.Stops s outcome') : b = c ∧ outcome = outcome' := by
  have hright : Relator.RightUnique (Step s) := by
    intro x y z hy hz
    exact Except.ok.inj (Option.some.inj (hy.symm.trans hz))
  have heq : b = c := by
    rcases Relation.ReflTransGen.total_of_right_unique hright hb hc with h | h
    · rcases h.cases_head with heq | ⟨d, hstep, _⟩
      · exact heq
      · exact absurd hstep hstop.not_step
    · rcases h.cases_head with heq | ⟨d, hstep, _⟩
      · exact heq.symm
      · exact absurd hstep hstop'.not_step
  subst heq
  refine ⟨rfl, ?_⟩
  cases hstop with
  | done hdone =>
    cases hstop' with
    | done => rfl
    | failed hfailed => simp [next, hdone] at hfailed
  | failed hfailed =>
    cases hstop' with
    | done hdone => simp [next, hdone] at hfailed
    | failed hfailed' => rw [Except.error.inj (Option.some.inj (hfailed.symm.trans hfailed'))]

/-- A session that stops has no endless run. -/
theorem Stops.no_run {a b : Session} {outcome : Except CompileError Unit} (hb : Reaches s a b)
    (hstop : b.Stops s outcome) :
    ¬ ∃ run : Nat → Session, run 0 = a ∧ ∀ n, Step s (run n) (run (n + 1)) := by
  rintro ⟨run, rfl, hrun⟩
  obtain ⟨n, rfl⟩ : ∃ n, run n = b := by
    clear hstop
    induction hb with
    | refl => exact ⟨0, rfl⟩
    | tail _ hstep ih =>
      obtain ⟨n, rfl⟩ := ih
      exact ⟨n + 1, Except.ok.inj (Option.some.inj ((hrun n).symm.trans hstep))⟩
  exact hstop.not_step (hrun n)

end Session

/-- The session of a survey that can be read stops as the compiler does. -/
theorem Form.session_of_ofText (s : Sources) (now : Moment) {name src : String} {survey : Survey}
    (h : Survey.ofSource name src = .ok survey) :
    ∃ last, Reaches s (.start s name survey) last ∧
      last.Stops s (Form.ofText s now name src).outcome := by
  have hexecutes := executes_ofSurvey s [s.canonical name] survey
  have houtcome : (Form.ofText s now name src).outcome =
      (FormTree.ofSurvey s [s.canonical name] survey).outcome := by
    rw [Form.ofText, outcome_bind, h]
    change (FormTree.ofSurvey s [s.canonical name] survey >>= _).outcome = _
    rw [outcome_bind, Logged.outcome]
    cases (FormTree.ofSurvey s [s.canonical name] survey).result <;> rfl
  rw [houtcome]
  cases hend : (FormTree.ofSurvey s [s.canonical name] survey).outcome with
  | ok =>
    refine ⟨⟨[s.canonical name], []⟩, ?_, .done rfl⟩
    have := hexecutes.ok hend []
    rwa [List.append_nil] at this
  | error e =>
    obtain ⟨chain, t, pending, inner, hreach, hrun, rfl⟩ := hexecutes.error e hend
    refine ⟨⟨chain, t :: pending⟩, ?_, .failed ?_⟩
    · have := hreach []
      rwa [List.append_nil, List.append_nil] at this
    · simp only [Session.next, hrun]

theorem Form.outcome_ofText_of_error {s : Sources} {now : Moment} {name src : String}
    {fault : Diagnostic} (h : Survey.ofSource name src = .error fault) :
    (Form.ofText s now name src).outcome = .error (.located fault) := by
  rw [Form.ofText, outcome_bind, h]
  rfl

/-- A file is compiled like its text, if that can be read. -/
theorem Form.outcome_ofFile (s : Sources) (now : Moment) (path : String) :
    (Form.ofFile s now path).outcome = match s.text path with
      | .error cause => .error (.unreadable path cause)
      | .ok src => (Form.ofText s now path src).outcome := by
  rw [Form.ofFile, outcome_bind]
  cases s.text path <;> rfl

end SurveyForms
