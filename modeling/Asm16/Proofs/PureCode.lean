import Asm16.Proofs.Canonical

/-! Programs of instructions only. Without data statements the words of a program are instructions of
the machine one after the other, so a walk finds them again at the addresses where they were laid
down. Their literals are as short as they can be, with one exception: a label outside brackets that
is declared on a later line has a word of its own, whatever its address turns out to be. -/

namespace Asm16

def Value.unlabelled (v : Value) : Value := ⟨v.word, none⟩

def Operand.unlabelled : Operand → Operand
  | registerOffset reg offset => registerOffset reg offset.unlabelled
  | memory address => memory address.unlabelled
  | nextWord value => nextWord value.unlabelled
  | short value => short value.unlabelled
  | op => op

namespace Operand

theorem encode_unlabelled (op : Operand) : op.unlabelled.encode = op.encode := by
  cases op <;> rfl

theorem isLong_unlabelled (op : Operand) : op.unlabelled.isLong = op.isLong := by
  cases op <;> rfl

theorem unlabelled_literal (v : Value) : (literal v).unlabelled = literal v.unlabelled := by
  by_cases h : v.word ≤ shortMax
  · rw [literal, if_pos h, literal, if_pos (show v.unlabelled.word ≤ shortMax from h)]
    rfl
  · rw [literal, if_neg h, literal, if_neg (show ¬ v.unlabelled.word ≤ shortMax from h)]
    rfl

theorem isLong_literal (v : Value) : (literal v).isLong = false := by
  unfold literal
  split
  · rfl
  · rename_i h
    simpa [isLong] using h

end Operand

namespace Instruction

def unlabelled : Instruction → Instruction
  | basic op a b => basic op a.unlabelled b.unlabelled
  | nonBasic op a => nonBasic op a.unlabelled

theorem encode_unlabelled (inst : Instruction) : inst.unlabelled.encode = inst.encode := by
  cases inst <;> simp only [unlabelled, encode, Operand.encode_unlabelled]

end Instruction

namespace Grammar
open Assembly

def labelOperand : List Text → List Text
  | [token] => [token].filter isReference
  | _ => []

def labelOperands (tokens : List Text) : List Text := (tokens.tail.splitOn commaToken).flatMap labelOperand

def isData (tokens : List Text) : Bool := tokens.head?.any fun mnemonic => Text.upper mnemonic == ascii "DAT"

def Term.bareLabels : Term → List Text
  | bare a => a.labels
  | _ => []

def Phrase.bareLabels : Phrase → List Text
  | data _ => []
  | nonBasic _ a => a.bareLabels
  | basic _ a b => a.bareLabels ++ b.bareLabels

section
variable {evaluate : Evaluator}

theorem Term.Spelt.bareLabels_eq {argument : List Text} {t : Term} (h : t.Spelt evaluate argument) :
    t.bareLabels = labelOperand argument := by
  cases h with
  | register hreg => simp [Term.bareLabels, labelOperand, isReference_of_isReserved (isReserved_of_register hreg)]
  | special hsp => simp [Term.bareLabels, labelOperand, isReference_of_isReserved (isReserved_of_special hsp)]
  | bare hvalue =>
    cases hvalue with
    | atom ha => exact ha.labels_eq
    | negative hword => rfl
  | indirect _ | memory _ | offsetFirst _ _ | registerFirst _ _ => rfl

theorem Phrase.Spelt.bareLabels_eq {tokens : List Text} {p : Phrase} (h : p.Spelt evaluate tokens)
    (hcode : isData tokens = false) : p.bareLabels = labelOperands tokens := by
  cases h with
  | data hm _ _ => simp [isData, hm] at hcode
  | nonBasic _ ha =>
    rw [Phrase.bareLabels, labelOperands, List.tail_cons, List.splitOn_eq_singleton ha.comma_notMem,
      List.flatMap_singleton, ha.bareLabels_eq]
  | basic _ ha hb =>
    rw [Phrase.bareLabels, labelOperands, List.tail_cons,
      List.splitOn_append_cons_self_of_not_mem ha.comma_notMem, List.splitOn_eq_singleton hb.comma_notMem,
      List.flatMap_cons, List.flatMap_singleton, ha.bareLabels_eq, hb.bareLabels_eq]

end

/-- Whether a label outside brackets takes a word of its own although its address would fit the
operand field. -/
def isStretched (early : Text → Bool) (final : Symbols) (label : Text) : Bool :=
  !early label && final[label]?.any (· ≤ Operand.shortMax)

section
variable {symbols final : Symbols}

theorem Term.exists_plain_of_bind (hext : Extends symbols final) {t : Term} (hnamed : t.Named)
    (hpresent : ∀ name ∈ t.labels, name ∈ final) :
    ∃ op, bindOperand final (t.operand symbols) = .ok op ∧ op.unlabelled.Plain ∧
      op.isLong = t.bareLabels.any (isStretched (symbols.contains ·) final) := by
  cases t with
  | register reg => exact ⟨.register reg, rfl, hnamed, rfl⟩
  | special sp => exact ⟨.special sp, rfl, hnamed, rfl⟩
  | indirect reg => exact ⟨.registerIndirect reg, rfl, hnamed, rfl⟩
  | offset reg a =>
    obtain ⟨word, hword⟩ := Atom.exists_word? hpresent
    have hbind := congrArg (Except.map (Operand.registerOffset reg)) (Atom.bindValue_located symbols hword)
    exact ⟨_, hbind, ⟨hnamed, rfl⟩, rfl⟩
  | memory a =>
    obtain ⟨word, hword⟩ := Atom.exists_word? hpresent
    have hbind := congrArg (Except.map Operand.memory) (Atom.bindValue_located symbols hword)
    exact ⟨_, hbind, rfl, rfl⟩
  | bare a =>
    obtain ⟨word, hword⟩ := Atom.exists_word? hpresent
    refine ⟨_, bindOperand_bare hext hword, ?_⟩
    -- A number and a label known in the first pass were made as short as they can be.
    by_cases hcompact : a.isCompact (symbols.contains ·) = true
    · rw [if_pos hcompact, Operand.unlabelled_literal, Operand.isLong_literal]
      refine ⟨Operand.plain_literal rfl, ?_⟩
      cases a with
      | number w => rfl
      | label name =>
        have hearly : symbols.contains name = true := hcompact
        simp [Term.bareLabels, Atom.labels, isStretched, hearly]
    · rw [if_neg hcompact]
      refine ⟨rfl, ?_⟩
      cases a with
      | number w => exact absurd rfl hcompact
      | label name =>
        have hlate : symbols.contains name = false := Bool.eq_false_iff.2 hcompact
        have haddress : final[name]? = some word := hword
        simp [Term.bareLabels, Atom.labels, isStretched, hlate, haddress, Operand.isLong]

theorem emit_of_bindInstruction {inst bound : Instruction} (hbind : bindInstruction final inst = .ok bound)
    (hplain : bound.unlabelled.Plain) :
    (Body.instruction inst).emit final = .ok bound.unlabelled.words := by
  obtain ⟨code, hcode⟩ := Instruction.exists_encode_of_plain hplain
  rw [Instruction.words_of_encode hcode]
  rw [Instruction.encode_unlabelled] at hcode
  rw [Body.emit, hbind]
  simp only [hcode, Except.map]

theorem Phrase.exists_plain_of_emit {evaluate : Evaluator} {tokens : List Text} {p : Phrase}
    (hspelt : p.Spelt evaluate tokens) (hcode : isData tokens = false) (hext : Extends symbols final)
    (hpresent : ∀ name ∈ p.labels, name ∈ final) :
    ∃ inst : Instruction, inst.Plain ∧ (p.body symbols).emit final = .ok inst.words ∧
      inst.isLong = p.bareLabels.any (isStretched (symbols.contains ·) final) := by
  cases hspelt with
  | data hm _ _ => simp [isData, hm] at hcode
  | nonBasic hop ha =>
    obtain ⟨-, rfl⟩ := NonBasicOp.ofName?_eq_some_iff.1 hop
    obtain ⟨boundA, hbindA, hplainA, hlongA⟩ := Term.exists_plain_of_bind hext ha.named hpresent
    have hbind := congrArg (Except.map (Instruction.nonBasic .jsr)) hbindA
    have hplain : (Instruction.nonBasic .jsr boundA).unlabelled.Plain := ⟨rfl, hplainA⟩
    refine ⟨_, hplain, emit_of_bindInstruction hbind hplain, ?_⟩
    simp [Instruction.isLong, Instruction.unlabelled, Instruction.operands, Operand.isLong_unlabelled, hlongA,
      Phrase.bareLabels]
  | basic hop ha hb =>
    rename_i op _ _
    simp only [Phrase.labels, List.mem_append] at hpresent
    obtain ⟨boundA, hbindA, hplainA, hlongA⟩ :=
      Term.exists_plain_of_bind hext ha.named fun name hname => hpresent name (.inl hname)
    obtain ⟨boundB, hbindB, hplainB, hlongB⟩ :=
      Term.exists_plain_of_bind hext hb.named fun name hname => hpresent name (.inr hname)
    have hbind : bindInstruction final _ = .ok (.basic op boundA boundB) :=
      bindInstruction_basic_eq_ok_iff.2 ⟨boundA, boundB, hbindA, hbindB, rfl⟩
    have hplain : (Instruction.basic op boundA boundB).unlabelled.Plain :=
      ⟨BasicOp.code_of_ofName? hop, hplainA, hplainB⟩
    refine ⟨_, hplain, emit_of_bindInstruction hbind hplain, ?_⟩
    simp [Instruction.isLong, Instruction.unlabelled, Instruction.operands, Operand.isLong_unlabelled, hlongA,
      hlongB, Phrase.bareLabels]

end
end Grammar

theorem visitsFrom_flatMap_words {insts : List Instruction} (h : ∀ inst ∈ insts, inst.Plain)
    (address : Nat) :
    visitsFrom address (insts.flatMap Instruction.words) =
      (listingsFrom address insts).map fun l => ⟨l.address, l.words, some l.instruction⟩ := by
  induction insts generalizing address with
  | nil => exact visitsFrom_of_truncated rfl address
  | cons inst rest ih =>
    obtain ⟨hinst, hrest⟩ := List.forall_mem_cons.1 h
    rw [List.flatMap_cons, visitsFrom_words_append hinst, ih hrest, listingsFrom, List.map_cons]

theorem map_words_listingsFrom (address : Nat) (insts : List Instruction) :
    (listingsFrom address insts).map Listing.words = insts.map Instruction.words := by
  induction insts generalizing address with
  | nil => rfl
  | cons inst rest ih => rw [listingsFrom, List.map_cons, ih, List.map_cons]

theorem canonical_flatMap_words_iff {insts : List Instruction} (h : ∀ inst ∈ insts, inst.Plain) :
    Canonical (insts.flatMap Instruction.words) ↔ ∀ inst ∈ insts, inst.isLong = false := by
  rw [Canonical, visits, visitsFrom_flatMap_words h, List.forall_mem_map]
  nth_rewrite 2 [← map_instruction_listingsFrom 0 insts]
  rw [List.forall_mem_map]
  simp [Visit.isCanonical]

namespace Assembly

def WithoutData (lines : List Text) : Prop := ∀ w ∈ statements lines, Grammar.isData w.tokens = false

instance (lines : List Text) : Decidable (WithoutData lines) :=
  inferInstanceAs (Decidable (∀ w ∈ statements lines, Grammar.isData w.tokens = false))

def forwardReferences (lines : List Text) : List Reference :=
  (statements lines).flatMap fun w =>
    ((Grammar.labelOperands w.tokens).filter fun label => !declaredBy lines w.line label).map
      (⟨w.line, w.text, ·⟩)

def Written.isStretched (lines : List Text) (symbols : Symbols) (w : Written) : Bool :=
  (Grammar.labelOperands w.tokens).any (Grammar.isStretched (declaredBy lines w.line) symbols)

theorem forall_isStretched_eq_false_iff {lines : List Text} {symbols : Symbols} :
    (∀ w ∈ statements lines, w.isStretched lines symbols = false) ↔
      ∀ r ∈ forwardReferences lines, ∀ address, symbols[r.label]? = some address → 0x1f < address := by
  constructor
  · intro hnone r hr address haddress
    obtain ⟨w, hw, hmem⟩ := List.mem_flatMap.1 hr
    obtain ⟨label, hlabel, rfl⟩ := List.mem_map.1 hmem
    obtain ⟨hbare, hlate⟩ := List.mem_filter.1 hlabel
    have hfits := List.any_eq_false.1 (hnone w hw) label hbare
    simp only [Grammar.isStretched, hlate, haddress, Option.any_some, Bool.true_and, decide_eq_true_eq,
      UInt16.not_le] at hfits
    exact hfits
  · intro hall w hw
    rw [Written.isStretched, List.any_eq_false]
    intro label hbare hstretched
    obtain ⟨hlate, hfits⟩ := Bool.and_eq_true_iff.1 hstretched
    obtain ⟨address, haddress, hle⟩ := (Option.any_eq_true _ _).1 hfits
    have hlarge := hall ⟨w.line, w.text, label⟩
      (List.mem_flatMap.2 ⟨w, hw, List.mem_map_of_mem (List.mem_filter.2 ⟨hbare, hlate⟩)⟩) address haddress
    exact absurd (of_decide_eq_true hle) (UInt16.not_le.2 hlarge)

section
variable {evaluate : Evaluator} {lines : List Text} {written : List Written} {layout : Layout}

theorem Layout.Describes.exists_plain (h : layout.Describes evaluate (declarations lines) written)
    {s : Statement} (hs : s ∈ layout.statements) (hcode : Grammar.isData s.tokens = false)
    {words : List UInt16} (hemit : s.body.emit layout.symbols = .ok words) :
    ∃ inst : Instruction, inst.Plain ∧ words = inst.words ∧
      inst.isLong = s.written.isStretched lines layout.symbols := by
  obtain ⟨symbols, p, hspelt, hbody, hext, hmem⟩ := h.spelt s hs
  obtain ⟨bound, hbind, -⟩ := Body.emit_eq_ok_iff.1 hemit
  have hpresent := (h.decided hs).labels_mem hbind
  rw [← hspelt.labels_eq] at hpresent
  obtain ⟨inst, hplain, hwords, hlong⟩ := Grammar.Phrase.exists_plain_of_emit hspelt hcode hext hpresent
  rw [← hbody, hemit] at hwords
  rw [hspelt.bareLabels_eq hcode, contains_eq_declaredBy hmem] at hlong
  exact ⟨inst, hplain, Except.ok.inj hwords, hlong⟩

theorem Emitted.exists_instructions {symbols : Symbols} {address : Nat} {ss : List Statement}
    {entries : List Program.Entry} {long : Statement → Bool} (h : Emitted symbols address ss entries)
    (hss : ∀ s ∈ ss, ∀ words, s.body.emit symbols = .ok words →
      ∃ inst : Instruction, inst.Plain ∧ words = inst.words ∧ inst.isLong = long s) :
    ∃ insts : List Instruction, (∀ inst ∈ insts, inst.Plain) ∧ insts.map Instruction.isLong = ss.map long ∧
      (listingsFrom address insts).map (fun l => ((l.address : Int), l.words)) =
        entries.map (fun e => (e.address, e.words)) := by
  induction h with
  | nil => exact ⟨[], by simp, rfl, rfl⟩
  | cons hwords _ ih =>
    obtain ⟨hs, hrest⟩ := List.forall_mem_cons.1 hss
    obtain ⟨inst, hplain, rfl, hlong⟩ := hs _ hwords
    obtain ⟨insts, hplains, hlongs, hplaces⟩ := ih hrest
    refine ⟨inst :: insts, List.forall_mem_cons.2 ⟨hplain, hplains⟩, ?_, ?_⟩
    · rw [List.map_cons, List.map_cons, hlong, hlongs]
    · -- The second pass goes on by the words emitted, the walk by the size of the instruction.
      rw [Instruction.length_words_of_plain hplain] at hplaces
      rw [listingsFrom, List.map_cons, hplaces, List.map_cons]

end

/-- A program without data is a sequence of instructions, each at the address of its entry. -/
theorem exists_instructions_of_parse {evaluate : Evaluator} {source : Source} {p : Program}
    (h : parse evaluate source = .ok p) (hcode : WithoutData source.lines) :
    ∃ insts : List Instruction, (∀ inst ∈ insts, inst.Plain) ∧
      p.words = insts.flatMap Instruction.words ∧ p.words.length ≤ 65536 ∧
      insts.map Instruction.isLong = (statements source.lines).map (·.isStretched source.lines p.symbols) ∧
      (listingsFrom 0 insts).map (fun l => ((l.address : Int), l.words)) =
        p.entries.map (fun e => (e.address, e.words)) := by
  obtain ⟨layout, hdescribes, hemitted, hsymbols⟩ := exists_layout_of_parse h
  obtain ⟨insts, hplain, hlong, hplaces⟩ := hemitted.exists_instructions fun s hs words hwords =>
    hdescribes.exists_plain (List.mem_reverse.1 hs)
      (hcode _ (hdescribes.line_mem (List.mem_reverse.1 hs))) hwords
  refine ⟨insts, hplain, ?_, length_words_le_of_parse h, ?_, hplaces⟩
  · have hwords := congrArg (List.map Prod.snd) hplaces
    rw [List.map_map, List.map_map] at hwords
    rw [Program.words, List.flatMap_def, List.flatMap_def, ← map_words_listingsFrom 0]
    exact congrArg List.flatten hwords.symm
  · rw [hlong, ← hdescribes.written_eq, hsymbols, List.map_map]
    rfl

/-- The walk over a program without data finds the instructions where they were laid down: it
skips no word, meets no error, and lists each entry with its address and its words. -/
theorem walk_words_of_parse {evaluate : Evaluator} {source : Source} {p : Program}
    (h : parse evaluate source = .ok p) (hcode : WithoutData source.lines) :
    ∃ listings : List Listing, walk p.words = listings.map .ok ∧
      (∀ v ∈ visits p.words, v.instruction?.isSome = true) ∧
      listings.map (fun l => ((l.address : Int), l.words)) = p.entries.map (fun e => (e.address, e.words)) := by
  obtain ⟨insts, hplain, hwords, -, -, hplaces⟩ := exists_instructions_of_parse h hcode
  refine ⟨listingsFrom 0 insts, ?_, ?_, hplaces⟩
  · rw [hwords]
    exact walkFrom_flatMap_words hplain 0
  · rw [hwords, visits, visitsFrom_flatMap_words hplain, List.forall_mem_map]
    exact fun l _ => rfl

def jumpSource : Source :=
  Source.ofText (ascii ":loop SET A, done\nSET [table+B], loop\n:table JSR [done]\n\n:done SET PC, done")

theorem walk_words_of_parse_jumpSource :
    WithoutData jumpSource.lines ∧ ∃ p, parse Constant.closed jumpSource = .ok p ∧
      p.entries.map (·.words) = [[0x7c01, 6], [0x8111, 4], [0x7810, 6], [0x99c1]] ∧
      ∃ listings : List Listing, walk p.words = listings.map .ok ∧
        listings.map Listing.words = p.entries.map (·.words) := by
  have hok : (parse Constant.closed jumpSource).map (fun p => p.entries.map (·.words)) =
      .ok [[0x7c01, 6], [0x8111, 4], [0x7810, 6], [0x99c1]] := by decide +kernel
  have hcode : WithoutData jumpSource.lines := by decide +kernel
  obtain ⟨p, hp, hwords⟩ := map_eq_ok_iff.1 hok
  obtain ⟨listings, hwalk, -, hplaces⟩ := walk_words_of_parse hp hcode
  have hsame := congrArg (List.map Prod.snd) hplaces
  rw [List.map_map, List.map_map] at hsame
  exact ⟨hcode, p, hp, hwords.symm, listings, hwalk, hsame⟩

/-- What is assembled from a source without data can be disassembled and assembled again. The words
are the same again unless a label outside brackets is referred to before its line and has an address
that fits the operand field: the listing has the address as a number, which takes no word. -/
theorem assemble_disassemble_eq_iff {text : Text} {words : List UInt16}
    (h : assemble text = .ok words) (hcode : WithoutData (Source.ofText text).lines) :
    ∃ p listing again, parse Constant.closed (Source.ofText text) = .ok p ∧ p.words = words ∧
      disassemble words = .ok listing ∧ assemble listing = .ok again ∧
      (again = words ↔ ∀ r ∈ forwardReferences (Source.ofText text).lines,
        ∀ address, p.symbols[r.label]? = some address → 0x1f < address) := by
  obtain ⟨p, hparse, rfl⟩ := map_eq_ok_iff.1 h
  obtain ⟨insts, hplain, hwords, hlength, hlong, -⟩ := exists_instructions_of_parse hparse hcode
  have hlisting := disassemble_flatMap_words hplain
  rw [← hwords] at hlisting
  obtain ⟨hnil, hagain⟩ := assemble_of_disassemble hlength hlisting
  refine ⟨p, _, _, hparse, rfl, hlisting, hagain, ?_⟩
  have hmap : (∀ inst ∈ insts, inst.isLong = false) ↔
      ∀ w ∈ statements (Source.ofText text).lines,
        w.isStretched (Source.ofText text).lines p.symbols = false := by
    rw [← List.forall_mem_map (P := (· = false)), hlong, List.forall_mem_map]
  rw [compactWords_eq_iff hnil, hwords, canonical_flatMap_words_iff hplain, hmap,
    forall_isStretched_eq_false_iff]

theorem assemble_disassemble_eq_iff_jump :
    (∃ listing again, assemble (ascii "SET PC, end\n:end SET A, 1") = .ok [0x7dc1, 0x0002, 0x8401] ∧
      disassemble [0x7dc1, 0x0002, 0x8401] = .ok listing ∧ assemble listing = .ok again ∧
        again ≠ [0x7dc1, 0x0002, 0x8401]) ∧
    ∃ listing, assemble (ascii ":end SET A, 1\nSET PC, end") = .ok [0x8401, 0x81c1] ∧
      disassemble [0x8401, 0x81c1] = .ok listing ∧ assemble listing = .ok [0x8401, 0x81c1] := by
  have hahead : assemble (ascii "SET PC, end\n:end SET A, 1") = .ok [0x7dc1, 0x0002, 0x8401] := by
    decide +kernel
  have hback : assemble (ascii ":end SET A, 1\nSET PC, end") = .ok [0x8401, 0x81c1] := by decide +kernel
  obtain ⟨p, listing, again, hp, -, hlisting, hagain, hiff⟩ :=
    assemble_disassemble_eq_iff hahead (by decide +kernel)
  obtain ⟨_, listing', again', -, -, hlisting', hagain', hiff'⟩ :=
    assemble_disassemble_eq_iff hback (by decide +kernel)
  constructor
  · have hend : (parse Constant.closed (Source.ofText (ascii "SET PC, end\n:end SET A, 1"))).map
        (fun p => p.symbols[ascii "end"]?) = .ok (some 2) := by decide +kernel
    rw [hp] at hend
    refine ⟨listing, again, hahead, hlisting, hagain, fun heq => ?_⟩
    exact absurd (hiff.1 heq ⟨1, ascii "SET PC, end", ascii "end"⟩ (by decide +kernel) 2 (Except.ok.inj hend))
      (by decide)
  · have hnone : forwardReferences (Source.ofText (ascii ":end SET A, 1\nSET PC, end")).lines = [] := by
      decide +kernel
    have hsame := hiff'.2 (by simp [hnone])
    exact ⟨listing', hback, hlisting', hsame ▸ hagain'⟩

end Assembly
end Asm16
