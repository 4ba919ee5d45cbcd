import Mathlib.Data.List.Chain
import SurveyForms.Proofs.OpenFiles
import SurveyForms.Proofs.Paths

/-! Files that include themselves. A session stops with a cycle at the first command that names an
open file and nowhere else, and the error lists the open files from that one on. -/
namespace SurveyForms

open Source (Line)

/-- A computation that only fails with faults of one sort. -/
def OnlyFails (P : Diagnostic → Prop) (x : Except Diagnostic α) : Prop := ∀ d, x = .error d → P d

namespace OnlyFails

variable {P : Diagnostic → Prop}

theorem ok (a : α) : OnlyFails P (.ok a) := fun _ h => by cases h

theorem error {d : Diagnostic} (h : P d) : OnlyFails P (.error d : Except Diagnostic α) := by
  rintro _ ⟨⟩
  exact h

theorem bind {x : Except Diagnostic α} {f : α → Except Diagnostic β} (hx : OnlyFails P x)
    (hf : ∀ a, OnlyFails P (f a)) : OnlyFails P (x >>= f) := by
  cases x with
  | error d => exact error (hx d rfl)
  | ok a => exact hf a

theorem map {x : Except Diagnostic α} (hx : OnlyFails P x) (f : α → β) :
    OnlyFails P (x.map f) := by
  cases x with
  | error d => exact error (hx d rfl)
  | ok a => exact ok (f a)

end OnlyFails

/-- Reading a block fails at a line with a fault of its own or with one of indentation. -/
theorem LineReader.onlyFails_block {reader : LineReader α β} {P : Diagnostic → Prop}
    {file : String} {ls : List Line} (hentry : ∀ l ∈ ls, OnlyFails P (reader.entry l))
    (hindent : ∀ l ∈ ls, ∀ fault : Fault, fault.kind = .indentation →
      P ⟨⟨file, l.number, l.col⟩, fault⟩)
    (col : Nat) : OnlyFails P (reader.block file col ls) := by
  intro d hd
  obtain ⟨l, hl, he | ⟨fault, hkind, rfl⟩⟩ := (refuses_iff.mpr hd).exists_mem
  · exact hentry l hl d he
  · exact hindent l hl fault hkind

/-- Any fault but a cycle. -/
def Diagnostic.Acyclic (d : Diagnostic) : Prop := d.fault.kind ≠ .cycle

theorem Diagnostic.acyclic_of_decide {d : Diagnostic}
    (h : decide (d.fault.kind = .cycle) = false) : d.Acyclic :=
  of_decide_eq_false h

open Diagnostic (Acyclic acyclic_of_decide)

namespace Command

theorem acyclic_pairs (c : Command) (args : List String) : OnlyFails Acyclic (c.pairs args) := by
  fun_induction c.pairs args with
  | case1 => exact .ok []
  | case2 last => exact .error (acyclic_of_decide rfl)
  | case3 key value rest ih => exact ih.bind fun _ => .ok _

theorem acyclic_bindings (c : Command) (args : List String) : OnlyFails Acyclic (c.bindings args) :=
  (c.acyclic_pairs args).bind fun _ => .ok _

theorem acyclic_formSettings (c : Command) : OnlyFails Acyclic c.formSettings := by
  unfold formSettings
  split
  · exact (c.acyclic_bindings _).bind fun _ => .ok _
  · exact .error (acyclic_of_decide rfl)

theorem acyclic_request (c : Command) (d : Dialect) : OnlyFails Acyclic (c.request d) := by
  unfold request
  split
  · split
    · exact c.acyclic_formSettings.map _
    · exact (c.acyclic_bindings _).map _
    · exact (c.acyclic_bindings _).map _
    · split
      · exact .ok none
      · exact .error (acyclic_of_decide rfl)
    · exact .error (acyclic_of_decide rfl)
  · split
    · exact (c.acyclic_bindings _).map _
    · exact .error (acyclic_of_decide rfl)

end Command

theorem acyclic_located (file : String) (l : Line) (rule : Grammar.Rule γ) :
    OnlyFails Acyclic (located file l (Grammar.parseLine rule l.text)) := by
  unfold Grammar.parseLine
  split
  · split
    · exact .ok _
    · exact .error (acyclic_of_decide rfl)
  · exact .error (acyclic_of_decide rfl)

private theorem acyclic_forest {reader : LineReader α β}
    (h : ∀ l, OnlyFails Acyclic (reader.entry l)) {file : String} (src : String) :
    OnlyFails Acyclic (reader.forest file src) := by
  refine LineReader.onlyFails_block (fun l _ => h l) (fun l _ fault hkind => ?_) _
  simp [Acyclic, hkind]

theorem Survey.acyclic_ofSource (file src : String) :
    OnlyFails Acyclic (Survey.ofSource file src) := by
  refine acyclic_forest (fun l => ?_) (Source.foldContinuations src)
  refine (acyclic_located file l _).bind fun line => ?_
  cases line <;> exact .ok _

theorem Choices.acyclic_ofText (file src : String) :
    OnlyFails Acyclic (Choices.ofText file src) := by
  refine acyclic_forest (fun l => ?_) src
  refine (acyclic_located file l _).bind fun line => ?_
  cases line <;> exact .ok _

theorem Dialect.acyclic_commands (d : Dialect) (file src : String) :
    OnlyFails Acyclic (d.commands file src) := by
  cases d with
  | survey => exact (Survey.acyclic_ofSource file src).map _
  | choices => exact (Choices.acyclic_ofText file src).map _

theorem Source.acyclic_substitute (file src : String) (bindings : Row) :
    OnlyFails Acyclic (Source.substitute file src bindings) := by
  unfold Source.substitute
  split
  · exact .ok _
  · exact .error (acyclic_of_decide rfl)

/-- A file that cannot be loaded is no cycle. -/
theorem Task.acyclic_of_load {s : Sources} {chain : List String} {dialect : Dialect} {c : Command}
    {bindings : Row} {e : CompileError} {d : Diagnostic}
    (h : (Task.load dialect c bindings).run s chain = .error e) (hd : e.diagnostic? = some d) :
    d.Acyclic := by
  simp only [Task.run] at h
  split at h
  · cases h
    cases hd
  split at h
  · next fault hfault =>
    cases h
    cases hd
    exact Source.acyclic_substitute _ _ _ _ hfault
  split at h
  · next fault hfault =>
    cases h
    cases hd
    exact dialect.acyclic_commands _ _ _ hfault
  · cases h

/-- Passing an error on keeps the fault at its bottom. -/
theorem CompileError.diagnostic?_passed (e : CompileError) (ts : List Task) :
    (e.passed ts).diagnostic? = e.diagnostic? := by
  induction ts generalizing e with
  | nil => rfl
  | cons t ts ih =>
    cases t with
    | leave c => exact ih _
    | command d c => exact ih e
    | load d c bindings => exact ih e

/-- A command that opens a file is one of two. -/
theorem Command.name_of_request {c : Command} {d : Dialect} {r : Dialect × Row}
    (h : c.request d = .ok (some r)) : c.name = "include" ∨ c.name = "choices" := by
  unfold request at h
  split at h
  · split at h
    · cases hsettings : c.formSettings <;> simp [hsettings, Except.map] at h
    · next hname => exact .inr hname
    · next hname => exact .inl hname
    · split at h <;> simp at h
    · cases h
  · split at h
    · next hname => exact .inl hname
    · cases h

namespace Session

/-- The next command names a file that is open. -/
def Circular (s : Sources) (a : Session) (c : Command) : Prop :=
  ∃ d r rest, a.agenda = .command d c :: rest ∧ c.request d = .ok (some r) ∧
    s.canonical c.target ∈ a.chain

/-- The open files from the one that a command names to the innermost, and that file again. -/
def cycle (s : Sources) (a : Session) (c : Command) : List String :=
  a.chain.reverse.dropWhile (· ≠ s.canonical c.target) ++ [s.canonical c.target]

/-- The files that are still to be closed, innermost first. -/
def pending (s : Sources) (a : Session) : List String :=
  a.agenda.filterMap fun
    | .leave c => some (s.canonical c.target)
    | _ => none

variable {s : Sources} {a : Session} {c : Command}

/-- The chain at an open file: the files inside it are those before it, and a walk inwards comes
to it first. -/
private theorem chain_split {chain : List String} {p : String} (hnodup : chain.Nodup)
    (hopen : p ∈ chain) : ∃ inner outer, chain = inner ++ p :: outer ∧
      chain.takeWhile (· ≠ p) = inner ∧ chain.reverse.dropWhile (· ≠ p) = p :: inner.reverse := by
  obtain ⟨inner, outer, rfl, hinner⟩ := List.eq_append_cons_of_mem hopen
  have houter : p ∉ outer := (List.nodup_cons.mp hnodup.of_append_right).1
  refine ⟨inner, outer, rfl, ?_, ?_⟩
  · rw [List.takeWhile_append_of_pos (by simpa using fun x hx => ne_of_mem_of_not_mem hx hinner)]
    simp
  · rw [List.reverse_append, List.reverse_cons, List.append_assoc, List.dropWhile_append_of_pos]
    · simp
    · simpa using fun x hx => ne_of_mem_of_not_mem hx houter

/-- A session stops at a command that names an open file. -/
theorem Circular.stops (h : a.Circular s c) (hnodup : a.chain.Nodup) :
    ∃ e, a.Stops s (.error e) ∧ e.diagnostic? = some ⟨c.pos, .cycle (a.cycle s c)⟩ := by
  obtain ⟨d, r, rest, hagenda, hrequest, hopen⟩ := h
  have hrun : (Task.command d c).run s a.chain =
      .error (.located ⟨c.pos, .cycle (a.cycle s c)⟩) := by
    obtain ⟨inner, outer, -, htake, hdrop⟩ := chain_split hnodup hopen
    simp only [Task.run, hrequest, if_pos hopen, cycle, htake, hdrop]
  refine ⟨(CompileError.located ⟨c.pos, .cycle (a.cycle s c)⟩).passed rest, .failed ?_,
    CompileError.diagnostic?_passed _ rest⟩
  simp only [next, hagenda, hrun]

/-- Nothing else makes a session stop with a cycle. -/
theorem circular_of_stops {e : CompileError} {d : Diagnostic} (h : a.Stops s (.error e))
    (hd : e.diagnostic? = some d) (hkind : d.fault.kind = .cycle) : ∃ c, a.Circular s c := by
  obtain ⟨t, rest, inner, hagenda, hrun, rfl⟩ := h.task
  rw [CompileError.diagnostic?_passed] at hd
  cases t with
  | command dialect c =>
    simp only [Task.run] at hrun
    split at hrun
    · next fault hfault =>
      cases hrun
      cases hd
      exact absurd hkind (c.acyclic_request dialect _ hfault)
    · cases hrun
    · next dialect' bindings hrequest =>
      split at hrun
      · next hopen => exact ⟨c, dialect, _, rest, hagenda, hrequest, hopen⟩
      · cases hrun
  | load dialect c bindings => exact absurd hkind (Task.acyclic_of_load hrun hd)
  | leave c => cases hrun

/-- The open files are those that are still to be closed, and the first. -/
theorem Open.chain_eq {entry : String} {met : Command → Prop} {held : String → Prop}
    (h : Open s entry met held a.chain a.agenda) : a.chain = a.pending s ++ [entry] := by
  obtain ⟨chain, agenda⟩ := a
  unfold pending
  simp only at h ⊢
  induction h with
  | entry => rfl
  | command _ _ _ ih => exact ih
  | leave _ _ _ _ _ ih => exact congrArg (_ :: ·) ih
  | load _ ih => exact ih

/-- A command stands in the innermost file. -/
theorem Open.head_eq {entry : String} {met : Command → Prop} {held : String → Prop}
    {chain : List String} {d : Dialect} {rest : List Task}
    (h : Open s entry met held chain (.command d c :: rest)) :
    chain.head? = some (s.canonical c.pos.file) := by
  cases h with
  | command hfile => simp [hfile]

/-- A command of the session stands in the one file and names the other. -/
def Links (s : Sources) (start : Session) (outer inner : String) : Prop :=
  ∃ c, Met s start c ∧ s.canonical c.pos.file = outer ∧ s.canonical c.target = inner

/-- How a session that started with a file keeps track of the open ones. -/
structure Tracks (s : Sources) (name : String) (start a : Session) : Prop where
  /-- The open files are those that are still to be closed, and the first. -/
  chain : a.chain = a.pending s ++ [s.canonical name]
  /-- A file that is not open is opened, however often it was open before. -/
  opens : ∀ d c r rest, a.agenda = .command d c :: rest → c.request d = .ok (some r) →
    s.canonical c.target ∉ a.chain →
      ∃ b, Step s a b ∧ b.chain = s.canonical c.target :: a.chain
  named : ∀ c, a.Circular s c → c.name = "include" ∨ c.name = "choices"
  message : ∀ c, a.Circular s c → Diagnostic.message ⟨c.pos, .cycle (a.cycle s c)⟩ =
    c.pos.toString ++ ": " ++ "cyclic include" ++ ": " ++ String.intercalate " -> " (a.cycle s c)
  /-- Each file of a cycle holds a command that names the next one. -/
  linked : ∀ c, a.Circular s c → (a.cycle s c).IsChain (Links s start)

theorem tracks_of_reaches {name src : String} {survey : Survey}
    (hsurvey : Survey.ofSource name src = .ok survey)
    (h : Reaches s (start s name survey) a) : Tracks s name (start s name survey) a := by
  have hopen := open_of_reaches hsurvey h
  refine ⟨hopen.chain_eq, ?_, ?_, fun _ _ => rfl, ?_⟩
  · intro d c r rest hagenda hrequest hnew
    have hrun : (Task.command d c).run s a.chain =
        .ok (s.canonical c.target :: a.chain, [.load r.1 c r.2, .leave c]) := by
      simp only [Task.run, hrequest, if_neg hnew]
    exact ⟨_, step_iff.mpr ⟨_, rest, _, _, hagenda, hrun, rfl⟩, rfl⟩
  · rintro c ⟨d, r, rest, hagenda, hrequest, -⟩
    exact Command.name_of_request hrequest
  · rintro c ⟨d, r, rest, hagenda, hrequest, hmem⟩
    have hmet : Met s (start s name survey) c := by
      obtain ⟨chain, agenda⟩ := a
      subst hagenda
      exact ⟨d, chain, rest, r, h, hrequest⟩
    have hhead : a.chain.head? = some (s.canonical c.pos.file) := (hagenda ▸ hopen).head_eq
    obtain ⟨inner, outer, hchain, -, hdrop⟩ := chain_split hopen.nodup hmem
    -- read from its end, the list is the file and then the chain up to that file
    have hcycle : a.cycle s c =
        (s.canonical c.target :: (inner ++ [s.canonical c.target])).reverse := by
      simp only [cycle, hdrop, List.reverse_cons, List.reverse_append, List.reverse_nil,
        List.nil_append, List.cons_append]
    rw [hcycle, List.isChain_reverse, List.isChain_cons]
    rw [List.append_cons] at hchain
    constructor
    · intro y hy
      have : a.chain.head? = some y := by rw [hchain, List.head?_append, hy]; rfl
      exact ⟨c, hmet, Option.some.inj (hhead.symm.trans this), rfl⟩
    · have hlinks := hopen.isChain
      rw [hchain] at hlinks
      exact hlinks.left_of_append

end Session

/-- A computation fails because of a fault. -/
def Compiling.FailsWith (x : Compiling α) (d : Diagnostic) : Prop :=
  ∃ e, x.result = .error e ∧ e.diagnostic? = some d

theorem Logged.outcome_eq_error {x : Logged ε α} {e : ε} :
    x.outcome = .error e ↔ x.result = .error e := by
  rw [outcome]
  cases x.result <;> simp [Except.map]

/-- The expansion of a text comes to a command that names an open file, and `d` tells of it. -/
def Survey.Circles (s : Sources) (name src : String) (d : Diagnostic) : Prop :=
  ∃ survey a c, Survey.ofSource name src = .ok survey ∧
    Session.Reaches s (.start s name survey) a ∧ a.Circular s c ∧
      d = ⟨c.pos, .cycle (a.cycle s c)⟩

namespace Form

theorem ofText_failsWith_iff (s : Sources) (now : Moment) (name src : String) (d : Diagnostic) :
    (Form.ofText s now name src).FailsWith d ∧ d.fault.kind = .cycle ↔
      Survey.Circles s name src d := by
  constructor
  · rintro ⟨⟨e, he, hd⟩, hkind⟩
    rw [← Logged.outcome_eq_error] at he
    cases hsurvey : Survey.ofSource name src with
    | error fault =>
      rw [outcome_ofText_of_error hsurvey] at he
      cases he
      cases hd
      exact absurd hkind (Survey.acyclic_ofSource name src _ hsurvey)
    | ok survey =>
      obtain ⟨a, hreach, hstop⟩ := session_of_ofText s now hsurvey
      rw [he] at hstop
      obtain ⟨c, hc⟩ := Session.circular_of_stops hstop hd hkind
      refine ⟨survey, a, c, hsurvey, hreach, hc, ?_⟩
      obtain ⟨e', hstop', hd'⟩ := hc.stops (Session.open_of_reaches hsurvey hreach).nodup
      cases (hstop.unique hreach hreach hstop').2
      exact Option.some.inj (hd.symm.trans hd')
  · rintro ⟨survey, a, c, hsurvey, hreach, hc, rfl⟩
    obtain ⟨e, hstop, hd⟩ := hc.stops (Session.open_of_reaches hsurvey hreach).nodup
    obtain ⟨last, hreach', hstop'⟩ := session_of_ofText s now hsurvey
    have houtcome := (hstop'.unique hreach' hreach hstop).2
    exact ⟨⟨e, Logged.outcome_eq_error.mp houtcome, hd⟩, rfl⟩

theorem ofFile_failsWith_iff (s : Sources) (now : Moment) (path : String) (d : Diagnostic) :
    (Form.ofFile s now path).FailsWith d ↔
      ∃ src, s.text path = .ok src ∧ (Form.ofText s now path src).FailsWith d := by
  simp only [Compiling.FailsWith, ← Logged.outcome_eq_error, outcome_ofFile]
  cases s.text path with
  | error cause =>
    constructor
    · rintro ⟨_, ⟨⟩, hd⟩
      cases hd
    · rintro ⟨_, ⟨⟩, _⟩
  | ok src => simp

/-- Cycles are told exactly. Compiling fails with a cycle at the first command of the expansion
that names an open file, if there is one, and never otherwise; the error stands at that command
and lists the open files from the one it names. Which file a command names does not depend on
the spelling of its path. -/
theorem cycles_told_exactly (s : Sources) (now : Moment) (name : String) :
    (∀ src d, (Form.ofText s now name src).FailsWith d ∧ d.fault.kind = .cycle ↔
      Survey.Circles s name src d) ∧
    (∀ d, (Form.ofFile s now name).FailsWith d ∧ d.fault.kind = .cycle ↔
      ∃ src, s.text name = .ok src ∧ Survey.Circles s name src d) ∧
    (∀ src survey a, Survey.ofSource name src = .ok survey →
      Session.Reaches s (.start s name survey) a →
        Session.Tracks s name (.start s name survey) a) ∧
    (∀ files : FileSet, files.sources.IgnoresSpelling) ∧
    ∀ t : FileTree, (∀ name ∈ t.home, Path.IsPlain name) → t.sources.IgnoresSpelling := by
  refine ⟨ofText_failsWith_iff s now name, fun d => ?_, ?_, ?_, ?_⟩
  · rw [ofFile_failsWith_iff]
    constructor
    · rintro ⟨⟨src, hsrc, hfails⟩, hkind⟩
      exact ⟨src, hsrc, (ofText_failsWith_iff s now name src d).mp ⟨hfails, hkind⟩⟩
    · rintro ⟨src, hsrc, hcircles⟩
      obtain ⟨hfails, hkind⟩ := (ofText_failsWith_iff s now name src d).mpr hcircles
      exact ⟨⟨src, hsrc, hfails⟩, hkind⟩
  · exact fun _ _ _ hsurvey hreach => Session.tracks_of_reaches hsurvey hreach
  · exact fun files => files.lexical.ignoresSpelling
  · exact fun _ hhome => (FileTree.lexical hhome).ignoresSpelling

-- a file may be included twice, but the way back to the first file is a cycle
example :
    (Form.ofText (FileSet.ofList [("/note", ""), ("/a/back", "@include \"../b/../form\"")]).sources
      ⟨0, 0⟩ "/form" "@include note\n@include \"a/../note\"\n@include \"./a/back\"").FailsWith
        ⟨⟨"/a/back", 1, 1⟩, .cycle ["/form", "/a/back", "/form"]⟩ := by
  refine ⟨.within ⟨⟨"/form", 3, 1⟩, "include", "./a/back", []⟩
    (.located ⟨⟨"/a/back", 1, 1⟩, .cycle ["/form", "/a/back", "/form"]⟩), ?_, rfl⟩
  exact Logged.outcome_eq_error.mp (by decide +kernel)

end Form
end SurveyForms
