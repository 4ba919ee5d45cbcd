import Mathlib.Data.List.Forall2
import SurveyForms.Proofs.BlockReading

/-! Blocks that look alike. Main result: if two sources have the same look line by line, and the
columns of their statements are in the same order, their blocks have the same look. -/
namespace SurveyForms

open Source (Line)

/-- A result with its error and its value replaced. -/
def both (onError : ε → δ) (onValue : α → β) (x : Except ε α) : Except δ β :=
  (x.map onValue).mapError onError

theorem both_ok (h : ε → δ) (g : α → β) (a : α) : both h g (.ok a) = .ok (g a) := rfl

theorem both_error (h : ε → δ) (g : α → β) (e : ε) : both h g (.error e) = .error (h e) := rfl

theorem both_toOption (h : ε → δ) (g : α → β) (x : Except ε α) :
    (both h g x).toOption = x.toOption.map g := by
  cases x <;> rfl

def Forest.map (g : α → γ) (h : β → δ) : Forest α β → Forest γ δ
  | .nil => .nil
  | .leaf a rest => .leaf (g a) (rest.map g h)
  | .block b body rest => .block (h b) (body.map g h) (rest.map g h)

theorem Forest.map_id (f : Forest α β) : f.map id id = f := by
  induction f with
  | nil => rfl
  | leaf a rest ih => rw [map, ih]; rfl
  | block b body rest ihbody ihrest => rw [map, ihbody, ihrest]; rfl

def Entry.map (g : α → γ) (h : β → δ) : Entry α β → Entry γ δ
  | .leaf a => .leaf (g a)
  | .header b bodiless name => .header (h b) (bodiless.map g) name

theorem Entry.map_id (e : Entry α β) : e.map id id = e := by
  cases e <;> simp [map]

/-- The statements among some lines are in the same order of columns as their counterparts. -/
def LineReader.SameOrder (zs : List (Line × Line)) : Prop :=
  ∀ z ∈ zs, ∀ w ∈ zs, ¬ z.1.isComment → ¬ w.1.isComment →
    compare z.1.col w.1.col = compare z.2.col w.2.col

/-- Two columns that the statements among some lines, and their counterparts, see on the same
side. -/
def LineReader.SameSide (zs : List (Line × Line)) (col col' : Nat) : Prop :=
  ∀ z ∈ zs, ¬ z.1.isComment → compare z.1.col col = compare z.2.col col'

/-- A reader of a file, and what is seen of faults, leaves and headers. -/
structure View (α β δ γ η : Type) where
  reader : LineReader α β
  file : String
  fault : Diagnostic → δ
  leaf : α → γ
  header : β → η

namespace View

variable {v : View α β δ γ η} {v' : View α' β' δ γ η}

def block (v : View α β δ γ η) (col : Nat) (ls : List Line) : Except δ (Forest γ η) :=
  both v.fault (Forest.map v.leaf v.header) (v.reader.block v.file col ls)

/-- A line and its counterpart that look alike. -/
structure Twins (v : View α β δ γ η) (v' : View α' β' δ γ η) (l l' : Line) : Prop where
  isComment : l.isComment = l'.isComment
  comment : l.isComment → v.leaf (v.reader.comment l) = v'.leaf (v'.reader.comment l')
  entry : both v.fault (Entry.map v.leaf v.header) (v.reader.entry l) =
    both v'.fault (Entry.map v'.leaf v'.header) (v'.reader.entry l')
  indentation : ∀ fault : Fault, fault.kind = .indentation →
    v.fault ⟨l.start v.file, fault⟩ = v'.fault ⟨l'.start v'.file, fault⟩

namespace Twins

variable {l l' : Line} (h : Twins v v' l l')
include h

theorem isStatement (hl : l.isComment = false) : l'.isComment = false := h.isComment.symm.trans hl

theorem entry_error {d : Diagnostic} (he : v.reader.entry l = .error d) :
    ∃ d', v'.reader.entry l' = .error d' ∧ v'.fault d' = v.fault d := by
  have hentry := h.entry
  rw [he] at hentry
  cases he' : v'.reader.entry l' with
  | ok e' => rw [he'] at hentry; cases hentry
  | error d' => rw [he'] at hentry; exact ⟨d', rfl, (Except.error.inj hentry).symm⟩

theorem entry_leaf {a : α} (he : v.reader.entry l = .ok (.leaf a)) :
    ∃ a', v'.reader.entry l' = .ok (.leaf a') ∧ v'.leaf a' = v.leaf a := by
  have hentry := h.entry
  rw [he] at hentry
  cases he' : v'.reader.entry l' with
  | error d' => rw [he'] at hentry; cases hentry
  | ok e' =>
    rw [he'] at hentry
    cases e' with
    | header => cases hentry
    | leaf a' => exact ⟨a', rfl, (Entry.leaf.inj (Except.ok.inj hentry)).symm⟩

theorem entry_header {b : β} {bodiless : Option α} {name : String}
    (he : v.reader.entry l = .ok (.header b bodiless name)) :
    ∃ b' bodiless', v'.reader.entry l' = .ok (.header b' bodiless' name) ∧
      v'.header b' = v.header b ∧ bodiless'.map v'.leaf = bodiless.map v.leaf := by
  have hentry := h.entry
  rw [he] at hentry
  cases he' : v'.reader.entry l' with
  | error d' => rw [he'] at hentry; cases hentry
  | ok e' =>
    rw [he'] at hentry
    cases e' with
    | leaf => cases hentry
    | header b' bodiless' name' =>
      obtain ⟨hb, hbodiless, rfl⟩ := Entry.header.inj (Except.ok.inj hentry)
      exact ⟨b', bodiless', rfl, hb.symm, hbodiless.symm⟩

end Twins

/-- A column is left of, at or right of another just as in the other source. -/
private theorem lt_iff_of_compare {a b c d : Nat} (h : compare a b = compare c d) :
    (a < b ↔ c < d) ∧ (b < a ↔ d < c) := by
  rw [← Nat.compare_eq_lt, ← Nat.compare_eq_lt, ← Nat.compare_eq_gt, ← Nat.compare_eq_gt, h]
  exact ⟨.rfl, .rfl⟩

private theorem span_map {f : α → β} {p : β → Bool} {q : α → Bool} {l : List α}
    (h : ∀ a ∈ l, p (f a) = q a) : (l.map f).takeWhile p = (l.takeWhile q).map f ∧
      (l.map f).dropWhile p = (l.dropWhile q).map f := by
  induction l with
  | nil => exact ⟨rfl, rfl⟩
  | cons a l ih =>
    obtain ⟨ha, hl⟩ := List.forall_mem_cons.mp h
    obtain ⟨htake, hdrop⟩ := ih hl
    cases hq : q a with
    | true => simp [ha, hq, htake, hdrop]
    | false => simp [ha, hq]

/-- Lines and their counterparts that look alike, at columns in the same order. -/
structure Facing (v : View α β δ γ η) (v' : View α' β' δ γ η) (zs : List (Line × Line))
    (col col' : Nat) : Prop where
  twins : ∀ z ∈ zs, Twins v v' z.1 z.2
  order : LineReader.SameOrder zs
  side : LineReader.SameSide zs col col'

namespace Facing

variable {zs : List (Line × Line)} {col col' : Nat}

theorem mono (h : Facing v v' zs col col') {ws : List (Line × Line)} (hws : ∀ w ∈ ws, w ∈ zs) :
    Facing v v' ws col col' :=
  ⟨fun w hw => h.twins w (hws w hw), fun z hz w hw => h.order z (hws z hz) w (hws w hw),
    fun w hw => h.side w (hws w hw)⟩

theorem of_firstColumn (htwins : ∀ z ∈ zs, Twins v v' z.1 z.2) (horder : LineReader.SameOrder zs) :
    Facing v v' zs (LineReader.firstColumn (zs.map Prod.fst))
      (LineReader.firstColumn (zs.map Prod.snd)) := by
  have hfind : (zs.map Prod.snd).find? (!·.isComment) =
      (zs.find? (!·.1.isComment)).map Prod.snd := by
    have hsame : ∀ z ∈ zs, (!z.2.isComment) = !z.1.isComment :=
      fun z hz => by rw [(htwins z hz).isComment]
    rw [List.find?_map, ← List.head?_filter, ← List.head?_filter]
    exact congrArg (fun ws => (List.head? ws).map Prod.snd) (List.filter_congr hsame)
  refine ⟨htwins, horder, fun z hz hcomment => ?_⟩
  rw [LineReader.firstColumn, LineReader.firstColumn, hfind, List.find?_map]
  show compare z.1.col (((zs.find? (!·.1.isComment)).map Prod.fst).map (·.col) |>.getD 0) = _
  cases hfirst : zs.find? (!·.1.isComment) with
  | none => exact absurd (List.find?_eq_none.mp hfirst z hz) (by simpa using hcomment)
  | some w =>
    have hw : ¬ w.1.isComment := by simpa using List.find?_some hfirst
    exact horder z hz w (List.mem_of_find?_eq_some hfirst) hcomment hw

end Facing

/-- The lines of two sources that can be set side by side. -/
def Aligned (v : View α β δ γ η) (v' : View α' β' δ γ η) (ls ls' : List Line) (col col' : Nat) :
    Prop :=
  ∃ zs : List (Line × Line), zs.map Prod.fst = ls ∧ zs.map Prod.snd = ls' ∧
    Facing v v' zs col col'

namespace Aligned

variable {l l' : Line} {ls ls' : List Line} {col col' : Nat}

theorem nil (h : Aligned v v' [] ls' col col') : ls' = [] := by
  obtain ⟨zs, hzs, rfl, -⟩ := h
  rw [List.map_eq_nil_iff.mp hzs, List.map_nil]

theorem exists_cons (h : Aligned v v' (l :: ls) ls' col col') : ∃ l' rest, ls' = l' :: rest := by
  obtain ⟨zs, hzs, rfl, -⟩ := h
  obtain ⟨z, zs, rfl, -, -⟩ := List.map_eq_cons_iff.mp hzs
  exact ⟨_, _, rfl⟩

variable (h : Aligned v v' (l :: ls) (l' :: ls') col col')
include h

private theorem exists_pairs : ∃ zs : List (Line × Line), zs.map Prod.fst = ls ∧
    zs.map Prod.snd = ls' ∧ Facing v v' ((l, l') :: zs) col col' := by
  obtain ⟨zs, hfst, hsnd, hzs⟩ := h
  obtain ⟨z, zs, rfl, rfl, rfl⟩ := List.map_eq_cons_iff.mp hfst
  obtain ⟨rfl, rfl⟩ := List.cons_eq_cons.mp hsnd
  exact ⟨zs, rfl, rfl, hzs⟩

theorem head : Twins v v' l l' := by
  obtain ⟨zs, -, -, hzs⟩ := h.exists_pairs
  exact hzs.twins (l, l') List.mem_cons_self

theorem tail : Aligned v v' ls ls' col col' := by
  obtain ⟨zs, hfst, hsnd, hzs⟩ := h.exists_pairs
  exact ⟨zs, hfst, hsnd, hzs.mono fun _ hw => List.mem_cons_of_mem _ hw⟩

variable (hl : l.isComment = false)
include hl

theorem col_lt_iff : (l.col < col ↔ l'.col < col') ∧ (col < l.col ↔ col' < l'.col) := by
  obtain ⟨zs, -, -, hzs⟩ := h.exists_pairs
  exact lt_iff_of_compare (hzs.side (l, l') List.mem_cons_self (by simp [hl]))

theorem col_eq (hcol : l.col = col) : l'.col = col' := by
  have := h.col_lt_iff hl
  omega

/-- The body of a header and that of its counterpart are cut off at the same place. -/
theorem span : Aligned v v' (ls.takeWhile (LineReader.inBody l.col))
      (ls'.takeWhile (LineReader.inBody l'.col))
      (LineReader.firstColumn (ls.takeWhile (LineReader.inBody l.col)))
      (LineReader.firstColumn (ls'.takeWhile (LineReader.inBody l'.col))) ∧
    Aligned v v' (ls.dropWhile (LineReader.inBody l.col))
      (ls'.dropWhile (LineReader.inBody l'.col)) col col' := by
  obtain ⟨zs, rfl, rfl, hzs⟩ := h.exists_pairs
  have htail : Facing v v' zs col col' := hzs.mono fun _ hw => List.mem_cons_of_mem _ hw
  have hbody : ∀ w ∈ zs, LineReader.inBody l'.col w.2 = LineReader.inBody l.col w.1 := by
    intro w hw
    rw [LineReader.inBody, LineReader.inBody, ← (htail.twins w hw).isComment]
    cases hcomment : w.1.isComment with
    | true => rfl
    | false =>
      have hcols := hzs.order w (List.mem_cons_of_mem _ hw) (l, l') List.mem_cons_self
        (by simp [hcomment]) (by simp [hl])
      simp only [Bool.false_or, (lt_iff_of_compare hcols).2]
  obtain ⟨htake, hdrop⟩ := span_map (f := Prod.fst) (p := LineReader.inBody l.col)
    (q := fun w => LineReader.inBody l.col w.1) (l := zs) fun _ _ => rfl
  obtain ⟨htake', hdrop'⟩ := span_map (f := Prod.snd) hbody
  have hinner : Facing v v' (zs.takeWhile fun w => LineReader.inBody l.col w.1) col col' :=
    htail.mono fun _ hw => (List.takeWhile_prefix _).subset hw
  have hafter : Facing v v' (zs.dropWhile fun w => LineReader.inBody l.col w.1) col col' :=
    htail.mono fun _ hw => (List.dropWhile_suffix _).subset hw
  rw [htake, htake', hdrop, hdrop']
  exact ⟨⟨_, rfl, rfl, .of_firstColumn hinner.twins hinner.order⟩, ⟨_, rfl, rfl, hafter⟩⟩

end Aligned

/-- What looks like a comment is one. -/
def SameComments (v : View α β δ γ η) (v' : View α' β' δ γ η) : Prop :=
  ∀ a a', v'.leaf a' = v.leaf a → v'.reader.isComment a' = v.reader.isComment a

theorem SameComments.anyStatement (h : SameComments v v') {f : Forest α β} {f' : Forest α' β'}
    (hf : f'.map v'.leaf v'.header = f.map v.leaf v.header) :
    f'.anyStatement (!v'.reader.isComment ·) = f.anyStatement (!v.reader.isComment ·) := by
  induction f generalizing f' with
  | nil =>
    cases f' with
    | nil => rfl
    | leaf | block => cases hf
  | leaf a rest ih =>
    cases f' with
    | nil | block => cases hf
    | leaf a' rest' =>
      obtain ⟨ha, hrest⟩ := Forest.leaf.inj hf
      rw [Forest.anyStatement, Forest.anyStatement, h a a' ha, ih hrest]
  | block b body rest =>
    cases f' with
    | nil | leaf => cases hf
    | block => rfl

variable {ls ls' : List Line} {col col' : Nat}

theorem reads_twin (hcomments : SameComments v v') {f : Forest α β}
    (hf : v.reader.Reads col ls f) (h : Aligned v v' ls ls' col col') :
    ∃ f', v'.reader.Reads col' ls' f' ∧ f'.map v'.leaf v'.header = f.map v.leaf v.header := by
  induction hf generalizing ls' col' with
  | nil =>
    obtain rfl := h.nil
    exact ⟨.nil, .nil, rfl⟩
  | comment hl _ ih =>
    obtain ⟨l', ls', rfl⟩ := h.exists_cons
    obtain ⟨rest', hrest', hrest⟩ := ih h.tail
    refine ⟨_, .comment (h.head.isComment ▸ hl) hrest', ?_⟩
    rw [Forest.map, Forest.map, hrest, h.head.comment hl]
  | leaf hl hentry _ ih =>
    obtain ⟨l', ls', rfl⟩ := h.exists_cons
    obtain rfl := h.col_eq hl rfl
    obtain ⟨a', hentry', ha⟩ := h.head.entry_leaf hentry
    obtain ⟨rest', hrest', hrest⟩ := ih h.tail
    refine ⟨_, .leaf (h.head.isStatement hl) hentry' hrest', ?_⟩
    rw [Forest.map, Forest.map, hrest, ha]
  | block hl hentry _ hany _ ihbody ihrest =>
    obtain ⟨l', ls', rfl⟩ := h.exists_cons
    obtain rfl := h.col_eq hl rfl
    obtain ⟨b', bodiless', hentry', hb, -⟩ := h.head.entry_header hentry
    obtain ⟨body', hbody', hbody⟩ := ihbody (h.span hl).1
    obtain ⟨rest', hrest', hrest⟩ := ihrest (h.span hl).2
    refine ⟨_, .block (h.head.isStatement hl) hentry' hbody'
      ((hcomments.anyStatement hbody).trans hany) hrest', ?_⟩
    rw [Forest.map, Forest.map, hbody, hrest, hb]
  | bodiless hl hentry _ hnone _ ihbody ihrest =>
    obtain ⟨l', ls', rfl⟩ := h.exists_cons
    obtain rfl := h.col_eq hl rfl
    obtain ⟨b', bodiless', hentry', -, hbodiless⟩ := h.head.entry_header hentry
    obtain ⟨a', rfl, ha⟩ := Option.map_eq_some_iff.mp hbodiless
    obtain ⟨body', hbody', hbody⟩ := ihbody (h.span hl).1
    obtain ⟨rest', hrest', hrest⟩ := ihrest (h.span hl).2
    refine ⟨_, .bodiless (h.head.isStatement hl) hentry' hbody'
      ((hcomments.anyStatement hbody).trans hnone) hrest', ?_⟩
    rw [Forest.map, Forest.map, hrest, ha]

theorem refuses_twin (hcomments : SameComments v v') {d : Diagnostic}
    (hd : v.reader.Refuses v.file d col ls) (h : Aligned v v' ls ls' col col') :
    ∃ d', v'.reader.Refuses v'.file d' col' ls' ∧ v'.fault d' = v.fault d := by
  induction hd generalizing ls' col' with
  | comment hl _ ih =>
    obtain ⟨l', ls', rfl⟩ := h.exists_cons
    obtain ⟨d', hd', heq⟩ := ih h.tail
    exact ⟨d', .comment (h.head.isComment ▸ hl) hd', heq⟩
  | unindent hl hcol hd =>
    obtain ⟨l', ls', rfl⟩ := h.exists_cons
    refine ⟨_, .unindent (h.head.isStatement hl) ((h.col_lt_iff hl).1.mp hcol) rfl, ?_⟩
    rw [hd, h.head.indentation _ rfl]
  | indent hl hcol hd =>
    obtain ⟨l', ls', rfl⟩ := h.exists_cons
    refine ⟨_, .indent (h.head.isStatement hl) ((h.col_lt_iff hl).2.mp hcol) rfl, ?_⟩
    rw [hd, h.head.indentation _ rfl]
  | entry hl he =>
    obtain ⟨l', ls', rfl⟩ := h.exists_cons
    obtain rfl := h.col_eq hl rfl
    obtain ⟨d', he', heq⟩ := h.head.entry_error he
    exact ⟨d', .entry (h.head.isStatement hl) he', heq⟩
  | leaf hl hentry _ ih =>
    obtain ⟨l', ls', rfl⟩ := h.exists_cons
    obtain rfl := h.col_eq hl rfl
    obtain ⟨a', hentry', -⟩ := h.head.entry_leaf hentry
    obtain ⟨d', hd', heq⟩ := ih h.tail
    exact ⟨d', .leaf (h.head.isStatement hl) hentry' hd', heq⟩
  | inside hl hentry _ ih =>
    obtain ⟨l', ls', rfl⟩ := h.exists_cons
    obtain rfl := h.col_eq hl rfl
    obtain ⟨b', bodiless', hentry', -, -⟩ := h.head.entry_header hentry
    obtain ⟨d', hd', heq⟩ := ih (h.span hl).1
    exact ⟨d', .inside (h.head.isStatement hl) hentry' hd', heq⟩
  | after hl hentry hbody hmeans _ ih =>
    obtain ⟨l', ls', rfl⟩ := h.exists_cons
    obtain rfl := h.col_eq hl rfl
    obtain ⟨b', bodiless', hentry', -, hbodiless⟩ := h.head.entry_header hentry
    obtain ⟨body', hbody', hseen⟩ := reads_twin hcomments hbody (h.span hl).1
    obtain ⟨d', hd', heq⟩ := ih (h.span hl).2
    refine ⟨d', .after (h.head.isStatement hl) hentry' hbody' ?_ hd', heq⟩
    rwa [hcomments.anyStatement hseen, ← Option.isSome_map, hbodiless, Option.isSome_map]
  | missing hl hentry hbody hnone hd =>
    obtain ⟨l', ls', rfl⟩ := h.exists_cons
    obtain rfl := h.col_eq hl rfl
    obtain ⟨b', bodiless', hentry', -, hbodiless⟩ := h.head.entry_header hentry
    obtain rfl : bodiless' = none := Option.map_eq_none_iff.mp hbodiless
    obtain ⟨body', hbody', hseen⟩ := reads_twin hcomments hbody (h.span hl).1
    refine ⟨_, .missing (h.head.isStatement hl) hentry' hbody'
      ((hcomments.anyStatement hseen).trans hnone) rfl, ?_⟩
    rw [hd, h.head.indentation _ rfl]

/-- Blocks that can be set side by side look alike. -/
theorem block_eq_of_aligned (hcomments : SameComments v v') (h : Aligned v v' ls ls' col col') :
    v.block col ls = v'.block col' ls' := by
  rcases LineReader.reads_or_refuses v.reader v.file col ls with ⟨f, hf⟩ | ⟨d, hd⟩
  · obtain ⟨f', hf', heq⟩ := reads_twin hcomments hf h
    rw [block, block, hf.block_eq, hf'.block_eq, both_ok, both_ok, heq]
  · obtain ⟨d', hd', heq⟩ := refuses_twin hcomments hd h
    rw [block, block, hd.block_eq, hd'.block_eq, both_error, both_error, heq]

/-- Lines that correspond one to one, at the same columns, can be set side by side. -/
theorem aligned_of_forall₂ {R : Line → Line → Prop} (h : List.Forall₂ R ls ls')
    (hR : ∀ l l', R l l' → l.col = l'.col ∧ Twins v v' l l') (col : Nat) :
    Aligned v v' ls ls' col col := by
  have hpairs : ∃ zs : List (Line × Line), zs.map Prod.fst = ls ∧ zs.map Prod.snd = ls' ∧
      ∀ z ∈ zs, z.1.col = z.2.col ∧ Twins v v' z.1 z.2 := by
    induction h with
    | nil => exact ⟨[], rfl, rfl, by simp⟩
    | @cons l l' ls ls' hl _ ih =>
      obtain ⟨zs, rfl, rfl, hzs⟩ := ih
      exact ⟨(l, l') :: zs, rfl, rfl, List.forall_mem_cons.mpr ⟨hR l l' hl, hzs⟩⟩
  obtain ⟨zs, hfst, hsnd, hzs⟩ := hpairs
  refine ⟨zs, hfst, hsnd, fun z hz => (hzs z hz).2, fun z hz w hw _ _ => ?_, fun z hz _ => ?_⟩
  · rw [(hzs z hz).1, (hzs w hw).1]
  · rw [(hzs z hz).1]

end View
end SurveyForms
