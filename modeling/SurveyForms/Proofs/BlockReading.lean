import SurveyForms.Statement.Block

/-! How a block is read. Its first line settles in which of a few ways a block is read or refused,
and what holds of blocks is proved by induction over these ways. -/
namespace SurveyForms

open Source (Line)

/-- Where a statement of a file stands whose line this is. -/
def Source.Line.start (file : String) (l : Line) : Position := ⟨file, l.number, l.col⟩

namespace LineReader

/-- The ways to read the lines of a block to a forest. -/
inductive Reads (reader : LineReader α β) : Nat → List Line → Forest α β → Prop
  | nil {col : Nat} : Reads reader col [] .nil
  | comment {col : Nat} {l : Line} {ls : List Line} {rest : Forest α β} (hl : l.isComment)
      (hrest : Reads reader col ls rest) :
      Reads reader col (l :: ls) (.leaf (reader.comment l) rest)
  | leaf {l : Line} {ls : List Line} {a : α} {rest : Forest α β} (hl : l.isComment = false)
      (hentry : reader.entry l = .ok (.leaf a)) (hrest : Reads reader l.col ls rest) :
      Reads reader l.col (l :: ls) (.leaf a rest)
  | block {l : Line} {ls : List Line} {b : β} {bodiless : Option α} {name : String}
      {body rest : Forest α β} (hl : l.isComment = false)
      (hentry : reader.entry l = .ok (.header b bodiless name))
      (hbody : Reads reader (firstColumn (ls.takeWhile (inBody l.col)))
        (ls.takeWhile (inBody l.col)) body)
      (hany : body.anyStatement (!reader.isComment ·) = true)
      (hrest : Reads reader l.col (ls.dropWhile (inBody l.col)) rest) :
      Reads reader l.col (l :: ls) (.block b body rest)
  | bodiless {l : Line} {ls : List Line} {b : β} {a : α} {name : String} {body rest : Forest α β}
      (hl : l.isComment = false) (hentry : reader.entry l = .ok (.header b (some a) name))
      (hbody : Reads reader (firstColumn (ls.takeWhile (inBody l.col)))
        (ls.takeWhile (inBody l.col)) body)
      (hnone : body.anyStatement (!reader.isComment ·) = false)
      (hrest : Reads reader l.col (ls.dropWhile (inBody l.col)) rest) :
      Reads reader l.col (l :: ls) (.leaf a rest)

/-- The ways to refuse the lines of a block. -/
inductive Refuses (reader : LineReader α β) (file : String) (d : Diagnostic) :
    Nat → List Line → Prop
  | comment {col : Nat} {l : Line} {ls : List Line} (hl : l.isComment)
      (h : Refuses reader file d col ls) : Refuses reader file d col (l :: ls)
  | unindent {col : Nat} {l : Line} {ls : List Line} (hl : l.isComment = false)
      (hcol : l.col < col) (hd : d = ⟨l.start file, .unmatchedUnindent⟩) :
      Refuses reader file d col (l :: ls)
  | indent {col : Nat} {l : Line} {ls : List Line} (hl : l.isComment = false)
      (hcol : col < l.col) (hd : d = ⟨l.start file, .unexpectedIndent⟩) :
      Refuses reader file d col (l :: ls)
  | entry {l : Line} {ls : List Line} (hl : l.isComment = false) (h : reader.entry l = .error d) :
      Refuses reader file d l.col (l :: ls)
  | leaf {l : Line} {ls : List Line} {a : α} (hl : l.isComment = false)
      (hentry : reader.entry l = .ok (.leaf a)) (h : Refuses reader file d l.col ls) :
      Refuses reader file d l.col (l :: ls)
  | inside {l : Line} {ls : List Line} {b : β} {bodiless : Option α} {name : String}
      (hl : l.isComment = false) (hentry : reader.entry l = .ok (.header b bodiless name))
      (h : Refuses reader file d (firstColumn (ls.takeWhile (inBody l.col)))
        (ls.takeWhile (inBody l.col))) : Refuses reader file d l.col (l :: ls)
  | after {l : Line} {ls : List Line} {b : β} {bodiless : Option α} {name : String}
      {body : Forest α β} (hl : l.isComment = false)
      (hentry : reader.entry l = .ok (.header b bodiless name))
      (hbody : reader.Reads (firstColumn (ls.takeWhile (inBody l.col)))
        (ls.takeWhile (inBody l.col)) body)
      (hmeans : body.anyStatement (!reader.isComment ·) = true ∨ bodiless.isSome)
      (h : Refuses reader file d l.col (ls.dropWhile (inBody l.col))) :
      Refuses reader file d l.col (l :: ls)
  | missing {l : Line} {ls : List Line} {b : β} {name : String} {body : Forest α β}
      (hl : l.isComment = false) (hentry : reader.entry l = .ok (.header b none name))
      (hbody : reader.Reads (firstColumn (ls.takeWhile (inBody l.col)))
        (ls.takeWhile (inBody l.col)) body)
      (hnone : body.anyStatement (!reader.isComment ·) = false)
      (hd : d = ⟨l.start file, .missingBody name⟩) : Refuses reader file d l.col (l :: ls)

variable {reader : LineReader α β} {file : String} {col : Nat} {l : Line} {ls : List Line}

/-! What the reader does with the first line of a block. -/

theorem block_nil (reader : LineReader α β) (file : String) (col : Nat) :
    reader.block file col [] = .ok .nil := by
  rw [block]

private theorem block_comment (hl : l.isComment) : reader.block file col (l :: ls) =
    (reader.block file col ls).map (.leaf (reader.comment l)) := by
  rw [block, if_pos hl]
  rfl

private theorem block_statement (hl : l.isComment = false) : reader.block file l.col (l :: ls) =
    reader.entry l >>= fun
      | .leaf a => (reader.block file l.col ls).map (.leaf a)
      | .header b bodiless name =>
        reader.block file (firstColumn (ls.takeWhile (inBody l.col)))
            (ls.takeWhile (inBody l.col)) >>= fun body =>
          if body.anyStatement (!reader.isComment ·) then
            (reader.block file l.col (ls.dropWhile (inBody l.col))).map (.block b body)
          else match bodiless with
            | some a => (reader.block file l.col (ls.dropWhile (inBody l.col))).map (.leaf a)
            | none => .error ⟨l.start file, .missingBody name⟩ := by
  rw [block, if_neg (by simp [hl]), if_neg (Nat.lt_irrefl _), if_neg (Nat.lt_irrefl _)]
  rfl

private theorem block_leaf {a : α} (hl : l.isComment = false)
    (hentry : reader.entry l = .ok (.leaf a)) : reader.block file l.col (l :: ls) =
      (reader.block file l.col ls).map (.leaf a) := by
  rw [block_statement hl, hentry]
  rfl

private theorem block_header {b : β} {bodiless : Option α} {name : String} {body : Forest α β}
    (hl : l.isComment = false) (hentry : reader.entry l = .ok (.header b bodiless name))
    (hbody : reader.block file (firstColumn (ls.takeWhile (inBody l.col)))
      (ls.takeWhile (inBody l.col)) = .ok body) : reader.block file l.col (l :: ls) =
      if body.anyStatement (!reader.isComment ·) then
        (reader.block file l.col (ls.dropWhile (inBody l.col))).map (.block b body)
      else match bodiless with
        | some a => (reader.block file l.col (ls.dropWhile (inBody l.col))).map (.leaf a)
        | none => .error ⟨l.start file, .missingBody name⟩ := by
  rw [block_statement hl, hentry]
  show (reader.block file _ _ >>= _) = _
  rw [hbody]
  rfl

/-- The first statement of a block that was read stands at its column. -/
theorem Reads.col_eq {f : Forest α β} (h : reader.Reads col (l :: ls) f)
    (hl : l.isComment = false) : l.col = col := by
  cases h with
  | comment hcomment _ => rw [hl] at hcomment; cases hcomment
  | leaf | block | bodiless => rfl

theorem Reads.block_eq {f : Forest α β} (h : reader.Reads col ls f) (file : String) :
    reader.block file col ls = .ok f := by
  induction h with
  | nil => exact block_nil reader file _
  | comment hl _ ih => rw [block_comment hl, ih]; rfl
  | leaf hl hentry _ ih => rw [block_leaf hl hentry, ih]; rfl
  | block hl hentry _ hany _ ihbody ihrest =>
    rw [block_header hl hentry ihbody, if_pos hany, ihrest]
    rfl
  | bodiless hl hentry _ hnone _ ihbody ihrest =>
    rw [block_header hl hentry ihbody, if_neg (by simp [hnone])]
    show Except.map _ _ = _
    rw [ihrest]
    rfl

theorem Refuses.block_eq {d : Diagnostic} (h : reader.Refuses file d col ls) :
    reader.block file col ls = .error d := by
  induction h with
  | comment hl _ ih => rw [block_comment hl, ih]; rfl
  | unindent hl hcol hd => rw [block, if_neg (by simp [hl]), if_pos hcol, hd]; rfl
  | indent hl hcol hd =>
    rw [block, if_neg (by simp [hl]), if_neg (Nat.lt_asymm hcol), if_pos hcol, hd]
    rfl
  | entry hl h => rw [block_statement hl, h]; rfl
  | leaf hl hentry _ ih => rw [block_leaf hl hentry, ih]; rfl
  | inside hl hentry _ ih =>
    rw [block_statement hl, hentry]
    show (reader.block file _ _ >>= _) = _
    rw [ih]
    rfl
  | @after l ls b bodiless name body hl hentry hbody hmeans _ ih =>
    rw [block_header hl hentry (hbody.block_eq file)]
    split
    · rw [ih]
      rfl
    · next hnone =>
      obtain ⟨a, rfl⟩ := Option.isSome_iff_exists.mp (hmeans.resolve_left hnone)
      show Except.map _ _ = _
      rw [ih]
      rfl
  | missing hl hentry hbody hnone hd =>
    rw [block_header hl hentry (hbody.block_eq file), if_neg (by simp [hnone]), hd]

/-- A block is refused at one of its lines. -/
theorem Refuses.exists_mem {d : Diagnostic} (h : reader.Refuses file d col ls) :
    ∃ l ∈ ls, reader.entry l = .error d ∨
      ∃ fault : Fault, fault.kind = .indentation ∧ d = ⟨l.start file, fault⟩ := by
  induction h with
  | comment _ _ ih | leaf _ _ _ ih =>
    obtain ⟨k, hk, hd⟩ := ih
    exact ⟨k, List.mem_cons_of_mem _ hk, hd⟩
  | unindent _ _ hd | indent _ _ hd | missing _ _ _ _ hd =>
    exact ⟨_, List.mem_cons_self, .inr ⟨_, rfl, hd⟩⟩
  | entry _ h => exact ⟨_, List.mem_cons_self, .inl h⟩
  | inside _ _ _ ih =>
    obtain ⟨k, hk, hd⟩ := ih
    exact ⟨k, List.mem_cons_of_mem _ ((List.takeWhile_prefix _).subset hk), hd⟩
  | after _ _ _ _ _ ih =>
    obtain ⟨k, hk, hd⟩ := ih
    exact ⟨k, List.mem_cons_of_mem _ ((List.dropWhile_suffix _).subset hk), hd⟩

private def Settled (reader : LineReader α β) (file : String) (col : Nat) (ls : List Line) : Prop :=
  (∃ f, reader.Reads col ls f) ∨ ∃ d, reader.Refuses file d col ls

private theorem settled_header {b : β} {bodiless : Option α} {name : String}
    (hl : l.isComment = false) (hentry : reader.entry l = .ok (.header b bodiless name))
    (hinner : reader.Settled file (firstColumn (ls.takeWhile (inBody l.col)))
      (ls.takeWhile (inBody l.col)))
    (hafter : reader.Settled file l.col (ls.dropWhile (inBody l.col))) :
    reader.Settled file l.col (l :: ls) := by
  rcases hinner with ⟨body, hbody⟩ | ⟨d, hd⟩
  · cases hany : body.anyStatement (!reader.isComment ·) with
    | true =>
      rcases hafter with ⟨rest, hrest⟩ | ⟨d, hd⟩
      · exact .inl ⟨_, .block hl hentry hbody hany hrest⟩
      · exact .inr ⟨d, .after hl hentry hbody (.inl hany) hd⟩
    | false =>
      cases bodiless with
      | none => exact .inr ⟨_, .missing hl hentry hbody hany rfl⟩
      | some a =>
        rcases hafter with ⟨rest, hrest⟩ | ⟨d, hd⟩
        · exact .inl ⟨_, .bodiless hl hentry hbody hany hrest⟩
        · exact .inr ⟨d, .after hl hentry hbody (.inr rfl) hd⟩
  · exact .inr ⟨d, .inside hl hentry hd⟩

/-- A block is read or refused in one of the ways. -/
theorem reads_or_refuses (reader : LineReader α β) (file : String) (col : Nat) (ls : List Line) :
    (∃ f, reader.Reads col ls f) ∨ ∃ d, reader.Refuses file d col ls := by
  -- The body of a header and what follows it are shorter than the lines below it, but the body is
  -- no tail of them. So the induction is on the number of lines.
  induction hn : ls.length using Nat.strongRecOn generalizing col ls with
  | _ n ih =>
    cases ls with
    | nil => exact .inl ⟨_, .nil⟩
    | cons l ls =>
      rw [List.length_cons] at hn
      have hinner := (List.takeWhile_prefix (l := ls) (inBody l.col)).length_le
      have hafter := (List.dropWhile_suffix (l := ls) (inBody l.col)).length_le
      have hstay (col : Nat) := ih ls.length (by omega) col ls rfl
      cases hl : l.isComment with
      | true =>
        rcases hstay col with ⟨rest, hrest⟩ | ⟨d, hd⟩
        · exact .inl ⟨_, .comment hl hrest⟩
        · exact .inr ⟨d, .comment hl hd⟩
      | false =>
        rcases Nat.lt_trichotomy l.col col with hcol | rfl | hcol
        · exact .inr ⟨_, .unindent hl hcol rfl⟩
        · cases hentry : reader.entry l with
          | error d => exact .inr ⟨d, .entry hl hentry⟩
          | ok e =>
            cases e with
            | leaf a =>
              rcases hstay l.col with ⟨rest, hrest⟩ | ⟨d, hd⟩
              · exact .inl ⟨_, .leaf hl hentry hrest⟩
              · exact .inr ⟨d, .leaf hl hentry hd⟩
            | header b bodiless name =>
              exact settled_header hl hentry (ih _ (by omega) _ _ rfl) (ih _ (by omega) _ _ rfl)
        · exact .inr ⟨_, .indent hl hcol rfl⟩

theorem reads_iff (file : String) {f : Forest α β} :
    reader.Reads col ls f ↔ reader.block file col ls = .ok f := by
  refine ⟨fun h => h.block_eq file, fun h => ?_⟩
  rcases reads_or_refuses reader file col ls with ⟨f', hf'⟩ | ⟨d, hd⟩
  · obtain rfl : f' = f := Except.ok.inj ((hf'.block_eq file).symm.trans h)
    exact hf'
  · cases hd.block_eq.symm.trans h

theorem reads_iff_toOption (file : String) {f : Forest α β} :
    reader.Reads col ls f ↔ (reader.block file col ls).toOption = some f := by
  rw [reads_iff file]
  cases reader.block file col ls <;> simp [Except.toOption]

theorem refuses_iff {d : Diagnostic} :
    reader.Refuses file d col ls ↔ reader.block file col ls = .error d := by
  refine ⟨Refuses.block_eq, fun h => ?_⟩
  rcases reads_or_refuses reader file col ls with ⟨f, hf⟩ | ⟨d', hd'⟩
  · cases (hf.block_eq file).symm.trans h
  · obtain rfl : d' = d := Except.error.inj (hd'.block_eq.symm.trans h)
    exact hd'

end LineReader
end SurveyForms
