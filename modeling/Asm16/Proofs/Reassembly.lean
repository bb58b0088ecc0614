import Asm16.Proofs.Rendering
import Asm16.Proofs.SecondPass
import Asm16.Proofs.Walk

/-! A disassembled program can be assembled again. Each printed instruction spells itself, with its
literals as compact as they can be, and a listing has no labels, so both passes go through; the
result is no longer than the words that were disassembled and prints the same. -/

namespace Asm16

def Operand.compact : Operand → Operand
  | nextWord value => literal value
  | op => op

namespace Operand

theorem plain_literal {v : Value} (h : v.label = none) : (literal v).Plain := by
  unfold literal
  split
  · rename_i hle
    exact ⟨hle, h⟩
  · exact h

theorem plain_compact {op : Operand} (h : op.Plain) : op.compact.Plain := by
  cases op with
  | nextWord value => exact plain_literal h
  | _ => exact h

theorem text_compact (op : Operand) : op.compact.text = op.text := by
  cases op with
  | nextWord value =>
    rw [compact, literal]
    split <;> rfl
  | _ => rfl

theorem needsWord_of_compact {op : Operand} (h : op.compact.needsWord = true) : op.needsWord = true := by
  cases op with
  | nextWord value => rfl
  | _ => exact h

end Operand

namespace Instruction

def compact : Instruction → Instruction
  | basic op a b => basic op a.compact b.compact
  | nonBasic op a => nonBasic op a.compact

theorem plain_compact {inst : Instruction} (h : inst.Plain) : inst.compact.Plain := by
  cases inst with
  | basic op a b => exact ⟨h.1, Operand.plain_compact h.2.1, Operand.plain_compact h.2.2⟩
  | nonBasic op a => exact ⟨h.1, Operand.plain_compact h.2⟩

theorem text_compact (inst : Instruction) : inst.compact.text = inst.text := by
  cases inst <;> simp only [compact, text, Operand.text_compact]

theorem size_compact_le (inst : Instruction) : inst.compact.size ≤ inst.size := by
  have hcount (ops : List Operand) :
      (ops.map Operand.compact).countP Operand.needsWord ≤ ops.countP Operand.needsWord := by
    rw [List.countP_map]
    exact List.countP_mono_left fun op _ => Operand.needsWord_of_compact
  cases inst with
  | basic op a b => exact Nat.add_le_add_left (hcount [a, b]) 1
  | nonBasic op a => exact Nat.add_le_add_left (hcount [a]) 1

theorem sum_size_compact_le (insts : List Instruction) :
    (insts.map fun inst => inst.compact.size).sum ≤ (insts.map size).sum := by
  induction insts with
  | nil => exact Nat.le_refl 0
  | cons inst rest ih =>
    rw [List.map_cons, List.sum_cons, List.map_cons, List.sum_cons]
    exact Nat.add_le_add inst.size_compact_le ih

theorem forall_plain_compact {insts : List Instruction} (h : ∀ inst ∈ insts, inst.Plain) :
    ∀ inst ∈ insts.map compact, inst.Plain := by
  intro _ hmem
  obtain ⟨inst, hinst, rfl⟩ := List.mem_map.1 hmem
  exact plain_compact (h inst hinst)

theorem length_flatMap_compact_words {insts : List Instruction} (h : ∀ inst ∈ insts, inst.Plain) :
    ((insts.map compact).flatMap words).length = (insts.map fun inst => inst.compact.size).sum := by
  rw [List.length_flatMap, List.map_map]
  congr 1
  exact List.map_congr_left fun inst hinst => length_words_of_plain (plain_compact (h inst hinst))

end Instruction

section
open Assembly

variable (evaluate : Evaluator) (symbols : Symbols)

theorem Value.spelt_text {v : Value} (h : v.label = none) :
    (Grammar.Atom.number v.word).Spelt evaluate v.text := by
  have htext : v.text = ascii "0x" ++ Text.hex v.word.toNat := by rw [Value.text, h]
  have hword : Numeral.word? (0x30 :: 0x78 :: Text.hex v.word.toNat) = some v.word :=
    Numeral.word?_hex v.word
  have hstart := Token.isPrefixOf_expressionStart (show 0x30 ≠ Token.dollar by decide)
    (0x78 :: Text.hex v.word.toNat)
  have hdigit : Text.isDigit 0x30 = true := by decide
  rw [htext]
  apply Grammar.Atom.Spelt.number
  change numberWord evaluate (0x30 :: 0x78 :: Text.hex v.word.toNat) = .ok v.word
  simp [numberWord, hstart, hdigit, hword]

theorem Operand.exists_spelt {op : Operand} (h : op.Plain) :
    ∃ t : Grammar.Term, t.Spelt evaluate op.tokens ∧ t.operand symbols = op.compact := by
  cases op with
  | register reg => exact ⟨.register reg, .register (Register.ofName?_text h), rfl⟩
  | special sp => exact ⟨.special sp, .special (Special.ofName?_text h), rfl⟩
  | registerIndirect reg => exact ⟨.indirect reg, .indirect (Register.ofName?_text h), rfl⟩
  | registerOffset reg offset =>
    obtain ⟨hreg, hoffset⟩ := h
    obtain ⟨word, label⟩ := offset
    obtain rfl : label = none := hoffset
    exact ⟨.offset reg (.number word),
      .offsetFirst (Value.spelt_text evaluate rfl) (Register.ofName?_text hreg), rfl⟩
  | memory address =>
    obtain ⟨word, label⟩ := address
    obtain rfl : label = none := h
    exact ⟨.memory (.number word), .memory (Value.spelt_text evaluate rfl), rfl⟩
  | nextWord value =>
    obtain ⟨word, label⟩ := value
    obtain rfl : label = none := h
    exact ⟨.bare (.number word), .bare (.atom (Value.spelt_text evaluate rfl)), rfl⟩
  | short value =>
    obtain ⟨word, label⟩ := value
    obtain ⟨hshort, rfl⟩ : word ≤ shortMax ∧ label = none := h
    exact ⟨.bare (.number word), .bare (.atom (Value.spelt_text evaluate rfl)), if_pos hshort⟩
  | pending value => exact absurd h id
  | unknown mode reg sp value => exact absurd h id

theorem Instruction.exists_spelt {inst : Instruction} (h : inst.Plain) :
    ∃ p : Grammar.Phrase, p.Spelt evaluate inst.tokens ∧ p.body symbols = .instruction inst.compact := by
  cases inst with
  | basic op a b =>
    obtain ⟨hop, ha, hb⟩ := h
    obtain ⟨s, hs, hsa⟩ := Operand.exists_spelt evaluate symbols ha
    obtain ⟨t, ht, htb⟩ := Operand.exists_spelt evaluate symbols hb
    refine ⟨.basic op s t, .basic (BasicOp.ofName?_text hop) hs ht, ?_⟩
    rw [Grammar.Phrase.body, hsa, htb]
    rfl
  | nonBasic op a =>
    obtain ⟨rfl, ha⟩ := h
    obtain ⟨t, ht, hta⟩ := Operand.exists_spelt evaluate symbols ha
    refine ⟨.nonBasic .jsr t, .nonBasic NonBasicOp.ofName?_text_jsr ht, ?_⟩
    rw [Grammar.Phrase.body, hta]
    rfl

end

namespace Assembly

theorem head_ne_colon_of_spelt {evaluate : Evaluator} {mnemonic : Text} {rest : List Text}
    {p : Grammar.Phrase} (h : p.Spelt evaluate (mnemonic :: rest)) : mnemonic ≠ Layout.colonToken := by
  have hnonBasic : NonBasicOp.ofName? Layout.colonToken = none := by decide
  have hbasic : BasicOp.ofName? Layout.colonToken = none := by decide
  rintro rfl
  cases h with
  | data hm _ _ => exact absurd hm (by decide)
  | nonBasic hm _ => exact absurd (hnonBasic.symm.trans hm) (Option.some_ne_none _).symm
  | basic hm _ _ => exact absurd (hbasic.symm.trans hm) (Option.some_ne_none _).symm

theorem Layout.declare_of_ne_colon {mnemonic : Text} (h : mnemonic ≠ colonToken) (address : Nat)
    (symbols : Symbols) (rest : List Text) :
    declare address symbols (mnemonic :: rest) = .ok (symbols, mnemonic :: rest) := by
  cases rest with
  | nil => rw [declare, if_neg h]
  | cons label rest => rw [declare, if_neg h]

theorem Layout.addLine_of_spelt {evaluate : Evaluator} {line : Text} {p : Grammar.Phrase}
    (h : p.Spelt evaluate (Token.ofLine line)) (number : Nat) (layout : Layout)
    (hfits : layout.address + (p.body layout.symbols).size ≤ memorySize) :
    layout.addLine evaluate number line =
      .ok ⟨layout.symbols, layout.address + (p.body layout.symbols).size,
        ⟨number, line, Token.ofLine line, p.body layout.symbols⟩ :: layout.statements⟩ := by
  cases htokens : Token.ofLine line with
  | nil =>
    rw [htokens] at h
    cases h
  | cons mnemonic rest =>
    rw [htokens] at h
    rw [addLine, htokens, declare_of_ne_colon (head_ne_colon_of_spelt h)]
    simp only [Grammar.statement_of_spelt h]
    rw [if_neg (Nat.not_lt.2 hfits)]

/-- A listing goes through the first pass, one statement to a line, whatever else the lines hold beside its
tokens. -/
theorem Layout.exists_addLines_of_plain {evaluate : Evaluator} {insts : List Instruction}
    (h : ∀ inst ∈ insts, inst.Plain) {lines : List Text}
    (htokens : lines.map Token.ofLine = insts.map Instruction.tokens) (number : Nat) (layout : Layout)
    (hfits : layout.address + (insts.map fun inst => inst.compact.size).sum ≤ memorySize) :
    ∃ ss : List Statement, ss.map (·.body) = insts.map (fun inst => .instruction inst.compact) ∧
      layout.addLines evaluate number lines =
        .ok ⟨layout.symbols, layout.address + (insts.map fun inst => inst.compact.size).sum,
          ss.reverse ++ layout.statements⟩ := by
  -- The layout before is arbitrary: nothing is declared, so its symbols stay what they are.
  induction insts generalizing lines number layout with
  | nil =>
    obtain rfl := List.map_eq_nil_iff.1 htokens
    exact ⟨[], rfl, rfl⟩
  | cons inst rest ih =>
    obtain ⟨line, more, rfl, hline, hmore⟩ := List.map_eq_cons_iff.1 htokens
    have hinst := h inst (List.mem_cons_self ..)
    obtain ⟨p, hspelt, hbody⟩ := Instruction.exists_spelt evaluate layout.symbols hinst
    rw [← hline] at hspelt
    rw [List.map_cons, List.sum_cons, ← Nat.add_assoc] at hfits
    have hsize : (p.body layout.symbols).size = inst.compact.size := congrArg Body.size hbody
    have hadded := addLine_of_spelt hspelt number layout (by omega)
    rw [hsize, hbody] at hadded
    obtain ⟨ss, hss, hlines⟩ := ih (fun inst hinst => h inst (List.mem_cons_of_mem _ hinst)) hmore (number + 1)
      ⟨layout.symbols, layout.address + inst.compact.size,
        ⟨number, line, Token.ofLine line, .instruction inst.compact⟩ :: layout.statements⟩ hfits
    refine ⟨⟨number, line, Token.ofLine line, .instruction inst.compact⟩ :: ss, ?_, ?_⟩
    · rw [List.map_cons, List.map_cons, hss]
    · rw [addLines, hadded]
      simp only [hlines, List.map_cons, List.sum_cons, Nat.add_assoc, List.reverse_cons, List.append_assoc,
        List.cons_append, List.nil_append]

/-! The second pass fills in nothing, for want of labels. -/

theorem bindOperand_of_plain (symbols : Symbols) {op : Operand} (h : op.Plain) :
    bindOperand symbols op = .ok op := by
  have hvalue : ∀ v : Value, v.label = none → bindValue symbols v = .ok v := by
    intro v hv
    rw [bindValue, hv]
  cases op with
  | register reg | registerIndirect reg | special sp => rfl
  | registerOffset reg offset => rw [bindOperand, hvalue offset h.2, Except.map]
  | memory address => rw [bindOperand, hvalue address h, Except.map]
  | nextWord value => rw [bindOperand, hvalue value h, Except.map]
  | short value => rw [bindOperand, hvalue value h.2, Except.map]
  | pending value => exact absurd h id
  | unknown mode reg sp value => exact absurd h id

theorem emit_of_plain (symbols : Symbols) {inst : Instruction} (h : inst.Plain) :
    (Body.instruction inst).emit symbols = .ok inst.words := by
  obtain ⟨code, hcode⟩ := Instruction.exists_encode_of_plain h
  have hbind : bindInstruction symbols inst = .ok inst := by
    cases inst with
    | basic op a b =>
      exact bindInstruction_basic_eq_ok_iff.2
        ⟨a, b, bindOperand_of_plain symbols h.2.1, bindOperand_of_plain symbols h.2.2, rfl⟩
    | nonBasic op a => rw [bindInstruction, bindOperand_of_plain symbols h.2, Except.map]
  rw [Body.emit, hbind, Instruction.words_of_encode hcode]
  simp only [hcode, Except.map]

theorem exists_emitFrom_of_plain (symbols : Symbols) {insts : List Instruction}
    (h : ∀ inst ∈ insts, inst.Plain) {ss : List Statement}
    (hss : ss.map (·.body) = insts.map Body.instruction) (address : Nat) (done : List Program.Entry) :
    ∃ entries, emitFrom symbols address done ss = .ok (done.reverse ++ entries) ∧
      entries.flatMap Program.Entry.words = insts.flatMap Instruction.words := by
  induction insts generalizing ss address done with
  | nil =>
    obtain rfl := List.map_eq_nil_iff.1 hss
    exact ⟨[], by rw [emitFrom, List.append_nil], rfl⟩
  | cons inst rest ih =>
    obtain ⟨s, tail, rfl, hbody, htail⟩ := List.map_eq_cons_iff.1 hss
    have hemit := emit_of_plain symbols (h inst (List.mem_cons_self ..))
    obtain ⟨entries, hentries, hwords⟩ := ih (fun inst hinst => h inst (List.mem_cons_of_mem _ hinst)) htail
      (address + inst.words.length) (⟨s.line, address, s.tokens, inst.words⟩ :: done)
    refine ⟨⟨s.line, address, s.tokens, inst.words⟩ :: entries, ?_, ?_⟩
    · rw [emitFrom, hbody, hemit]
      simp only [hentries, List.reverse_cons, List.append_assoc, List.cons_append, List.nil_append]
    · rw [List.flatMap_cons, List.flatMap_cons, hwords]

theorem exists_parse_of_plain (evaluate : Evaluator) {insts : List Instruction}
    (h : ∀ inst ∈ insts, inst.Plain) {source : Source} (hstop : source.stop = none)
    (htokens : source.lines.map Token.ofLine = insts.map Instruction.tokens)
    (hfits : (insts.map fun inst => inst.compact.size).sum ≤ memorySize) :
    ∃ p, parse evaluate source = .ok p ∧
      p.words = (insts.map Instruction.compact).flatMap Instruction.words := by
  have hstart : Layout.start.address + (insts.map fun inst => inst.compact.size).sum ≤ memorySize :=
    (Nat.zero_add _).symm ▸ hfits
  obtain ⟨ss, hss, hlines⟩ := Layout.exists_addLines_of_plain h htokens 1 Layout.start hstart
  obtain ⟨entries, hentries, hwords⟩ := exists_emitFrom_of_plain ∅ (Instruction.forall_plain_compact h)
    (by rw [hss, List.map_map]; rfl) 0 []
  refine ⟨⟨entries, ∅⟩, ?_, hwords⟩
  rw [parse, Layout.ofSource, hlines, hstop]
  simp only [Layout.emit, Layout.start, List.append_nil, List.reverse_reverse, hentries, List.reverse_nil,
    List.nil_append]

theorem assemble_stacked {insts : List Instruction} (h : ∀ inst ∈ insts, inst.Plain)
    (hfits : (insts.map fun inst => inst.compact.size).sum ≤ memorySize) :
    assemble (Text.stacked (insts.map Instruction.text)) =
      .ok ((insts.map Instruction.compact).flatMap Instruction.words) := by
  have hsource : Source.ofText (Text.stacked (insts.map Instruction.text)) =
      ⟨insts.map Instruction.text, none⟩ := by
    rw [Source.ofText, Instruction.lines_stacked h]
    rfl
  have htokens : (insts.map Instruction.text).map Token.ofLine = insts.map Instruction.tokens := by
    rw [List.map_map]
    exact List.map_congr_left fun inst hinst => Instruction.ofLine_text (h inst hinst)
  obtain ⟨p, hparse, hwords⟩ :
      ∃ p, parse Constant.closed ⟨insts.map Instruction.text, none⟩ = .ok p ∧ p.words = _ :=
    exists_parse_of_plain Constant.closed h rfl htokens hfits
  rw [assemble, hsource, hparse, ← hwords]
  rfl

end Assembly

/-- What is disassembled can be assembled again. Words that are no instruction and needlessly long
literals are lost on the way, so the result may be shorter, but it is the same listing. -/
theorem exists_assemble_of_disassemble {words : List UInt16} (hlength : words.length ≤ 65536)
    {text : Text} (h : disassemble words = .ok text) :
    ∃ shorter, Assembly.assemble text = .ok shorter ∧ shorter.length ≤ words.length ∧
      disassemble shorter = .ok text := by
  obtain ⟨insts, hplain, hsize, rfl⟩ := exists_instructions_of_disassemble h
  have hshorter : (insts.map fun inst => inst.compact.size).sum ≤ words.length :=
    (Instruction.sum_size_compact_le insts).trans hsize
  refine ⟨_, Assembly.assemble_stacked hplain (hshorter.trans hlength), ?_, ?_⟩
  · rw [Instruction.length_flatMap_compact_words hplain]
    exact hshorter
  · rw [disassemble_flatMap_words (Instruction.forall_plain_compact hplain), List.map_map]
    congr 2
    exact List.map_congr_left fun inst _ => inst.text_compact

theorem exists_assemble_of_disassemble_long_literal :
    ∃ text shorter, disassemble [0x7c01, 0x0003, 0x0000, 0x7dc1, 0xabcd] = .ok text ∧
      Assembly.assemble text = .ok shorter ∧ shorter = [0x8c01, 0x7dc1, 0xabcd] ∧
        disassemble shorter = .ok text := by
  have htext : disassemble [0x7c01, 0x0003, 0x0000, 0x7dc1, 0xabcd] =
      .ok (ascii "SET A, 0x3\nSET PC, 0xabcd") := by decide +kernel
  obtain ⟨shorter, hassemble, -, hsame⟩ := exists_assemble_of_disassemble (by decide) htext
  have hwords : Assembly.assemble (ascii "SET A, 0x3\nSET PC, 0xabcd") = .ok [0x8c01, 0x7dc1, 0xabcd] := by
    decide +kernel
  exact ⟨_, shorter, htext, hassemble, Except.ok.inj (hassemble.symm.trans hwords), hsame⟩

end Asm16
