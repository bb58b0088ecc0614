import Asm16.Proofs.SecondPass

/-! Sources that go on. Text after the end of a source adds lines, and lines only add to a layout: they
declare further labels and append further statements. What was laid out before stays, and since a label
never moves, it is emitted as before. -/

namespace Asm16

namespace Text

theorem exists_linesFrom_done (line : Text) (count : Nat) (done : List Text) (t : Text) :
    ∃ more overlong, linesFrom line count done t = ⟨done.reverse ++ more, overlong⟩ := by
  induction t generalizing line count done with
  | nil =>
    cases line with
    | nil => exact ⟨[], false, by rw [linesFrom, List.append_nil]⟩
    | cons b line => exact ⟨[endLine (b :: line)], false, by rw [linesFrom, List.reverse_cons]⟩
  | cons b rest ih =>
    rw [linesFrom]
    split
    · obtain ⟨more, overlong, hmore⟩ := ih [] 0 (endLine line :: done)
      refine ⟨endLine line :: more, overlong, ?_⟩
      rw [hmore, List.reverse_cons, List.append_assoc]
      rfl
    · split
      · exact ih (b :: line) (count + 1) done
      · exact ⟨[], true, by rw [List.append_nil]⟩

theorem exists_linesFrom_append_newline {line : Text} {count : Nat} {done ls : List Text} {t : Text}
    (h : linesFrom line count done t = ⟨ls, false⟩) (rest : Text) :
    ∃ more overlong, linesFrom line count done (t ++ newline :: rest) = ⟨ls ++ more, overlong⟩ := by
  induction t generalizing line count done with
  | nil =>
    obtain ⟨more, overlong, hmore⟩ := exists_linesFrom_done [] 0 (endLine line :: done) rest
    rw [List.nil_append, linesFrom, if_pos rfl, hmore, List.reverse_cons]
    -- If the text had ended with a newline, the added one makes a line of nothing.
    cases line with
    | nil =>
      obtain rfl : done.reverse = ls := congrArg Lines.lines h
      refine ⟨endLine [] :: more, overlong, ?_⟩
      rw [List.append_assoc]
      rfl
    | cons b line =>
      obtain rfl : (endLine (b :: line) :: done).reverse = ls := congrArg Lines.lines h
      exact ⟨more, overlong, by rw [List.reverse_cons]⟩
  | cons b t ih =>
    rw [linesFrom] at h
    rw [List.cons_append, linesFrom]
    split at h
    · rename_i hnewline
      rw [if_pos hnewline]
      exact ih h
    · rename_i hnewline
      rw [if_neg hnewline]
      split at h
      · rename_i hcount
        rw [if_pos hcount]
        exact ih h
      · exact absurd (congrArg Lines.overlong h) (by simp)

end Text

namespace Assembly

theorem prefix_lines_ofText_append {first : Text} (h : (Source.ofText first).stop = none) (second : Text) :
    (Source.ofText first).lines <+: (Source.ofText (first ++ Text.newline :: second)).lines := by
  have hread : Text.lines first = ⟨(Text.lines first).lines, false⟩ := by
    cases hover : (Text.lines first).overlong with
    | false => rw [← hover]
    | true => simp [Source.ofText, hover] at h
  obtain ⟨more, overlong, hmore⟩ := Text.exists_linesFrom_append_newline hread second
  exact ⟨more, (congrArg Text.Lines.lines hmore).symm⟩

structure Layout.Grows (layout next : Layout) : Prop where
  extends_symbols : Extends layout.symbols next.symbols
  suffix_statements : layout.statements <:+ next.statements

namespace Layout.Grows

theorem refl (layout : Layout) : layout.Grows layout := ⟨.refl _, List.suffix_rfl⟩

theorem trans {first second third : Layout} (h : first.Grows second) (h' : second.Grows third) :
    first.Grows third :=
  ⟨h.extends_symbols.trans h'.extends_symbols, h.suffix_statements.trans h'.suffix_statements⟩

theorem of_addLine {evaluate : Evaluator} {number : Nat} {line : Text} {layout next : Layout}
    (h : layout.addLine evaluate number line = .ok next) : layout.Grows next := by
  obtain ⟨symbols, hdeclares, hcases⟩ := addLine_cases h
  rcases hcases with ⟨-, rfl⟩ | ⟨mnemonic, rest, p, -, -, -, rfl⟩
  · exact ⟨hdeclares.toExtends, List.suffix_rfl⟩
  · exact ⟨hdeclares.toExtends, List.suffix_cons _ _⟩

theorem of_addLines {evaluate : Evaluator} {number : Nat} {lines : List Text}
    {layout last : Layout} (h : addLines evaluate number layout lines = .ok last) : layout.Grows last := by
  induction lines generalizing number layout with
  | nil =>
    obtain rfl := Except.ok.inj h
    exact refl layout
  | cons line rest ih =>
    rw [addLines] at h
    split at h
    · contradiction
    · rename_i next hnext
      exact (of_addLine hnext).trans (ih h)

end Layout.Grows

section
variable {symbols final : Symbols}

theorem bindValue_of_extends (hext : Extends symbols final) {v bound : Value}
    (h : bindValue symbols v = .ok bound) : bindValue final v = .ok bound := by
  unfold bindValue at h ⊢
  split at h
  · exact h
  · rename_i label hlabel
    split at h
    · rename_i address haddress
      rw [hext label address haddress]
      exact h
    · contradiction

theorem bindOperand_of_extends (hext : Extends symbols final) {op bound : Operand}
    (h : bindOperand symbols op = .ok bound) : bindOperand final op = .ok bound := by
  cases op with
  | register reg | registerIndirect reg | special sp | unknown mode reg sp value => exact h
  | registerOffset reg v | memory v | nextWord v | short v | pending v =>
    obtain ⟨value, hvalue, rfl⟩ := map_eq_ok_iff.1 h
    exact map_eq_ok_iff.2 ⟨value, bindValue_of_extends hext hvalue, rfl⟩

theorem bindInstruction_of_extends (hext : Extends symbols final) {inst bound : Instruction}
    (h : bindInstruction symbols inst = .ok bound) : bindInstruction final inst = .ok bound := by
  cases inst with
  | basic op a b =>
    obtain ⟨boundA, boundB, ha, hb, rfl⟩ := bindInstruction_basic_eq_ok_iff.1 h
    exact bindInstruction_basic_eq_ok_iff.2
      ⟨boundA, boundB, bindOperand_of_extends hext ha, bindOperand_of_extends hext hb, rfl⟩
  | nonBasic op a =>
    obtain ⟨boundA, ha, rfl⟩ := map_eq_ok_iff.1 h
    exact map_eq_ok_iff.2 ⟨boundA, bindOperand_of_extends hext ha, rfl⟩

theorem dataWordsFrom_of_extends (hext : Extends symbols final) {done words : List UInt16}
    {values : List Value} (h : dataWordsFrom symbols done values = .ok words) :
    dataWordsFrom final done values = .ok words := by
  induction values generalizing done with
  | nil => exact h
  | cons v rest ih =>
    rw [dataWordsFrom] at h ⊢
    split at h
    · rename_i bound hbound
      rw [bindValue_of_extends hext hbound]
      exact ih h
    · contradiction

theorem Body.emit_of_extends (hext : Extends symbols final) {body : Body} {words : List UInt16}
    (h : body.emit symbols = .ok words) : body.emit final = .ok words := by
  cases body with
  | data values => exact dataWordsFrom_of_extends hext h
  | instruction inst =>
    rw [emit] at h ⊢
    split at h
    · contradiction
    · rename_i bound hbound
      rw [bindInstruction_of_extends hext hbound]
      exact h

theorem Emitted.prefix_of_extends (hext : Extends symbols final) {address : Nat} {ss more : List Statement}
    {entries all : List Program.Entry} (h : Emitted symbols address ss entries)
    (hall : Emitted final address (ss ++ more) all) : entries <+: all := by
  induction h generalizing all with
  | nil => exact List.nil_prefix
  | cons hwords hrest ih =>
    cases hall with
    | cons hwords' hrest' =>
      obtain rfl := Except.ok.inj ((Body.emit_of_extends hext hwords).symm.trans hwords')
      exact (List.prefix_cons_inj _).2 (ih hrest')

end

theorem prefix_entries_of_parse {evaluate : Evaluator} {source longer : Source} {p q : Program}
    (hlines : source.lines <+: longer.lines) (hp : parse evaluate source = .ok p)
    (hq : parse evaluate longer = .ok q) : p.entries <+: q.entries ∧ Extends p.symbols q.symbols := by
  obtain ⟨layout, hlayout, hemitted, hsymbols⟩ := exists_addLines_of_parse hp
  obtain ⟨last, hlast, hemitted', hsymbols'⟩ := exists_addLines_of_parse hq
  obtain ⟨more, hmore⟩ := hlines
  rw [← hmore, Layout.addLines_append, hlayout] at hlast
  have hgrows : layout.Grows last := .of_addLines hlast
  obtain ⟨later, hlater⟩ := hgrows.suffix_statements
  rw [← hlater, List.reverse_append] at hemitted'
  refine ⟨hemitted.prefix_of_extends hgrows.extends_symbols hemitted', ?_⟩
  rw [hsymbols, hsymbols']
  exact hgrows.extends_symbols

theorem stop_eq_none_of_parse {evaluate : Evaluator} {source : Source} {p : Program}
    (h : parse evaluate source = .ok p) : source.stop = none := by
  unfold parse Layout.ofSource at h
  cases hstop : source.stop with
  | none => rfl
  | some fault =>
    rw [hstop] at h
    cases hlines : Layout.addLines evaluate 1 .start source.lines <;> simp [hlines] at h

/-- Lines added to the end of a source change nothing before them: the entries, the words and the labels
of the shorter program are the first ones of the longer one. -/
theorem parse_append_newline {evaluate : Evaluator} {first second : Text} {p q : Program}
    (hp : parse evaluate (Source.ofText first) = .ok p)
    (hq : parse evaluate (Source.ofText (first ++ Text.newline :: second)) = .ok q) :
    p.entries <+: q.entries ∧ p.words <+: q.words ∧
      ∀ (label : Text) (address : UInt16), p.symbols[label]? = some address →
        q.symbols[label]? = some address := by
  have hlines := prefix_lines_ofText_append (stop_eq_none_of_parse hp) second
  obtain ⟨hentries, hsymbols⟩ := prefix_entries_of_parse hlines hp hq
  refine ⟨hentries, ?_, hsymbols⟩
  obtain ⟨more, hmore⟩ := hentries
  rw [Program.words, Program.words, ← hmore, List.flatMap_append]
  exact List.prefix_append _ _

theorem parse_append_newline_jump :
    ∃ p q, parse Constant.closed (Source.ofText (ascii "SET PC, end\n:end SET A, end")) = .ok p ∧
      parse Constant.closed (Source.ofText (ascii "SET PC, end\n:end SET A, end" ++
        Text.newline :: ascii ":more DAT end, more")) = .ok q ∧
      p.words = [0x7dc1, 2, 0x8801] ∧ q.words = [0x7dc1, 2, 0x8801, 2, 3] ∧
      p.entries <+: q.entries ∧ p.symbols[ascii "end"]? = some 2 ∧ q.symbols[ascii "end"]? = some 2 := by
  have hshort : (parse Constant.closed (Source.ofText (ascii "SET PC, end\n:end SET A, end"))).map
      (fun p => (p.words, p.symbols[ascii "end"]?)) = .ok ([0x7dc1, 2, 0x8801], some 2) := by decide +kernel
  have hlong : (parse Constant.closed (Source.ofText (ascii "SET PC, end\n:end SET A, end" ++
      Text.newline :: ascii ":more DAT end, more"))).map Program.words =
        .ok [0x7dc1, 2, 0x8801, 2, 3] := by decide +kernel
  obtain ⟨p, hp, hwords⟩ := map_eq_ok_iff.1 hshort
  obtain ⟨q, hq, hmore⟩ := map_eq_ok_iff.1 hlong
  obtain ⟨hpwords, hend⟩ := Prod.mk.inj hwords
  obtain ⟨hentries, -, hsymbols⟩ := parse_append_newline hp hq
  exact ⟨p, q, hp, hq, hpwords.symm, hmore.symm, hentries, hend.symm, hsymbols _ _ hend.symm⟩

end Assembly
end Asm16
