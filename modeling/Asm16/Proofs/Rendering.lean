import Asm16.Assembly.Statement
import Asm16.Proofs.Encoding
import Asm16.Proofs.Lexing
import Asm16.Proofs.Lines
import Asm16.Proofs.Numeral
import Mathlib.Data.List.TakeWhile
import Mathlib.Tactic.IntervalCases

/-! Printed instructions as text. An instruction that was decoded is printed with words, separators
and spaces only, so that a line is read as the tokens it was put together from, and the lines of a
listing are found again. -/

namespace Asm16

namespace Token

def isPlain (b : UInt8) : Bool :=
  !(isSeparator b || isBlank b || b == dollar || b == Text.semicolon || b == Text.newline)

structure IsWord (w : Text) : Prop where
  ne_nil : w ≠ []
  length_le : w.length ≤ 6
  plain : w.all isPlain = true

theorem isPlain_iff {b : UInt8} : isPlain b = true ↔ isSeparator b = false ∧ isBlank b = false ∧
    b ≠ dollar ∧ b ≠ Text.semicolon ∧ b ≠ Text.newline := by
  simp [isPlain, and_assoc]

theorem isPrefixOf_expressionStart {b : UInt8} (h : b ≠ dollar) (rest : Text) :
    expressionStart.isPrefixOf (b :: rest) = false := by
  simp [expressionStart, List.isPrefixOf, h.symm]

theorem isRun_of_plain {w : Text} (h : w.all isPlain = true) : isRun w = true := by
  induction w with
  | nil => rfl
  | cons b w ih =>
    obtain ⟨hb, hw⟩ := Bool.and_eq_true_iff.1 h
    obtain ⟨hseparator, hblank, hdollar, -, -⟩ := isPlain_iff.1 hb
    rw [isRun, stops, hseparator, hblank, isPrefixOf_expressionStart hdollar, ih hw]
    rfl

theorem IsWord.lexed {w t : Text} {tokens : List Text} (hw : IsWord w) (hstops : stops t = true)
    (h : Lexed t tokens) : Lexed (w ++ t) (w :: tokens) :=
  .word hw.ne_nil (isRun_of_plain hw.plain) hstops h

end Token

namespace Text

theorem spaced_cons_cons (p q : Text) (more : List Text) :
    spaced (p :: q :: more) = p ++ space :: spaced (q :: more) := by
  rw [spaced, List.intercalate_cons_cons, List.append_assoc]
  rfl

theorem before_of_notMem {b : UInt8} {t : Text} (h : b ∉ t) : before b t = t := by
  unfold before
  rw [List.takeWhile_eq_self_iff]
  intro c hc
  simpa using ne_of_mem_of_not_mem hc h

/-- Whether a byte leaves the line as it is: it neither ends it nor starts a comment. -/
def isInline (b : UInt8) : Bool := !(b == newline || b == carriageReturn || b == semicolon)

structure Fits (bound : Nat) (t : Text) : Prop where
  length_le : t.length ≤ bound
  inline : t.all isInline = true

namespace Fits

theorem mono {n m : Nat} {t : Text} (h : Fits n t) (hle : n ≤ m) : Fits m t :=
  ⟨h.length_le.trans hle, h.inline⟩

theorem append {n m : Nat} {t u : Text} (ht : Fits n t) (hu : Fits m u) : Fits (n + m) (t ++ u) where
  length_le := by
    rw [List.length_append]
    exact Nat.add_le_add ht.length_le hu.length_le
  inline := by rw [List.all_append, ht.inline, hu.inline, Bool.and_self]

theorem word {w : Text} (h : Token.IsWord w) : Fits 6 w where
  length_le := h.length_le
  inline := by
    rw [List.all_eq_true]
    intro b hb
    obtain ⟨-, hblank, -, hsemicolon, hnewline⟩ := Token.isPlain_iff.1 (List.all_eq_true.1 h.plain b hb)
    have hreturn : b ≠ carriageReturn := by
      rintro rfl
      exact absurd hblank (by decide)
    simp [isInline, hnewline, hreturn, hsemicolon]

theorem ne_of_mem {n : Nat} {t : Text} (h : Fits n t) {b : UInt8} (hb : b ∈ t) :
    b ≠ newline ∧ b ≠ carriageReturn ∧ b ≠ semicolon := by
  simpa [isInline, and_assoc] using List.all_eq_true.1 h.inline b hb

theorem before_semicolon {n : Nat} {t : Text} (h : Fits n t) : before semicolon t = t :=
  before_of_notMem fun hmem => (h.ne_of_mem hmem).2.2 rfl

end Fits

end Text

section
open Token

theorem Register.isWord_text {reg : Register} (h : reg.index < 8) : IsWord reg.text := by
  obtain ⟨i⟩ := reg
  have hi : i.toNat < 8 := h
  rw [← UInt8.ofNat_toNat (x := i)]
  interval_cases i.toNat <;> exact ⟨by decide, by decide, by decide⟩

theorem Special.isWord_text {sp : Special} (h : sp.isNamed = true) : IsWord sp.text := by
  obtain ⟨c⟩ := sp
  obtain ⟨hlow, hhigh⟩ : 0x18 ≤ c.toNat ∧ c.toNat ≤ 0x1d := by
    simpa [isNamed, first, last, UInt8.le_iff_toNat_le] using h
  rw [← UInt8.ofNat_toNat (x := c)]
  interval_cases c.toNat <;> exact ⟨by decide, by decide, by decide⟩

theorem BasicOp.isWord_text {op : BasicOp} (h : 1 ≤ op.code ∧ op.code ≤ 15) : IsWord op.text := by
  obtain ⟨c⟩ := op
  obtain ⟨hlow, hhigh⟩ : 1 ≤ c.toNat ∧ c.toNat ≤ 15 := h
  rw [← UInt8.ofNat_toNat (x := c)]
  interval_cases c.toNat <;> exact ⟨by decide, by decide, by decide⟩

theorem NonBasicOp.isWord_text_jsr : IsWord jsr.text := ⟨by decide, by decide, by decide⟩

theorem Value.isWord_text {v : Value} (h : v.label = none) : IsWord v.text := by
  have htext : v.text = ascii "0x" ++ Text.hex v.word.toNat := by rw [Value.text, h]
  have hlength : (Text.hex v.word.toNat).length ≤ 4 :=
    Text.length_digits_le (by decide) v.word.toNat_lt
  rw [htext]
  refine ⟨by simp [ascii], ?_, ?_⟩
  · rw [List.length_append]
    exact Nat.add_le_add (show (ascii "0x").length ≤ 2 by decide) hlength
  · rw [List.all_append, Bool.and_eq_true_iff, List.all_eq_true (l := Text.hex v.word.toNat)]
    refine ⟨by decide, ?_⟩
    intro b hb
    obtain ⟨d, hd, rfl⟩ := Text.exists_digit_of_mem_digits (by decide) hb
    interval_cases d <;> decide

def Operand.tokens : Operand → List Text
  | register reg => [reg.text]
  | registerIndirect reg => [Assembly.openToken, reg.text, Assembly.closeToken]
  | registerOffset reg offset =>
    [Assembly.openToken, offset.text, Assembly.plusToken, reg.text, Assembly.closeToken]
  | special sp => [sp.text]
  | memory address => [Assembly.openToken, address.text, Assembly.closeToken]
  | nextWord value => [value.text]
  | short value => [value.text]
  | pending value => [value.text]
  | unknown _ _ _ _ => []

/-- A printed operand is read as its tokens wherever no word runs on from its end. -/
theorem Operand.lexed_text {op : Operand} (h : op.Plain) {t : Text} {tokens : List Text} (hstops : stops t = true)
    (ht : Lexed t tokens) : Lexed (op.text ++ t) (op.tokens ++ tokens) := by
  have hclose : Lexed (ascii "]" ++ t) (Assembly.closeToken :: tokens) := ht.separator (by decide)
  cases op with
  | register reg => exact (Register.isWord_text h).lexed hstops ht
  | special sp => exact (Special.isWord_text h).lexed hstops ht
  | nextWord value => exact (Value.isWord_text h).lexed hstops ht
  | short value => exact (Value.isWord_text h.2).lexed hstops ht
  | registerIndirect reg =>
    have hreg := (Register.isWord_text h).lexed rfl hclose
    rw [text, List.append_assoc, List.append_assoc]
    exact hreg.separator (by decide)
  | memory address =>
    have haddress := (Value.isWord_text h).lexed rfl hclose
    rw [text, List.append_assoc, List.append_assoc]
    exact haddress.separator (by decide)
  | registerOffset reg offset =>
    obtain ⟨hreg, hoffset⟩ := h
    have hright := (Register.isWord_text hreg).lexed rfl hclose
    have hplus : Lexed (ascii "+" ++ (reg.text ++ (ascii "]" ++ t))) _ := hright.separator (by decide)
    have hinner := (Value.isWord_text hoffset).lexed rfl hplus
    rw [text, List.append_assoc, List.append_assoc, List.append_assoc, List.append_assoc]
    exact hinner.separator (by decide)
  | pending value => exact absurd h id
  | unknown mode reg sp value => exact absurd h id

theorem Operand.fits_text {op : Operand} (h : op.Plain) : Text.Fits 15 op.text := by
  have hopen : Text.Fits 1 (ascii "[") := ⟨by decide, by decide⟩
  have hplus : Text.Fits 1 (ascii "+") := ⟨by decide, by decide⟩
  have hclose : Text.Fits 1 (ascii "]") := ⟨by decide, by decide⟩
  cases op with
  | register reg => exact (Text.Fits.word (Register.isWord_text h)).mono (by decide)
  | special sp => exact (Text.Fits.word (Special.isWord_text h)).mono (by decide)
  | nextWord value => exact (Text.Fits.word (Value.isWord_text h)).mono (by decide)
  | short value => exact (Text.Fits.word (Value.isWord_text h.2)).mono (by decide)
  | registerIndirect reg =>
    exact ((hopen.append (.word (Register.isWord_text h))).append hclose).mono (by decide)
  | memory address =>
    exact ((hopen.append (.word (Value.isWord_text h))).append hclose).mono (by decide)
  | registerOffset reg offset =>
    obtain ⟨hreg, hoffset⟩ := h
    have hleft := (hopen.append (.word (Value.isWord_text hoffset))).append hplus
    exact (hleft.append (.word (Register.isWord_text hreg))).append hclose
  | pending value => exact absurd h id
  | unknown mode reg sp value => exact absurd h id

def Instruction.tokens : Instruction → List Text
  | basic op a b => op.text :: (a.tokens ++ Assembly.commaToken :: b.tokens)
  | nonBasic op a => op.text :: a.tokens

namespace Instruction

theorem lexed_text {inst : Instruction} (h : inst.Plain) {t : Text} {tokens : List Text} (hstops : stops t = true)
    (ht : Lexed t tokens) : Lexed (inst.text ++ t) (inst.tokens ++ tokens) := by
  cases inst with
  | basic op a b =>
    obtain ⟨hop, ha, hb⟩ := h
    have hright : Lexed (ascii ", " ++ (b.text ++ t)) (Assembly.commaToken :: (b.tokens ++ tokens)) :=
      ((Operand.lexed_text hb hstops ht).blank (by decide)).separator (by decide)
    have hleft := Operand.lexed_text ha rfl hright
    have hargs : Lexed (ascii " " ++ (a.text ++ (ascii ", " ++ (b.text ++ t)))) _ := hleft.blank (by decide)
    have hall := (BasicOp.isWord_text hop).lexed rfl hargs
    rw [text, Instruction.tokens]
    simpa only [List.append_assoc, List.cons_append] using hall
  | nonBasic op a =>
    obtain ⟨rfl, ha⟩ := h
    have harg : Lexed (ascii " " ++ (a.text ++ t)) (a.tokens ++ tokens) :=
      (Operand.lexed_text ha hstops ht).blank (by decide)
    rw [text, List.append_assoc, List.append_assoc]
    exact NonBasicOp.isWord_text_jsr.lexed rfl harg

theorem fits_text {inst : Instruction} (h : inst.Plain) : Text.Fits 39 inst.text := by
  have hspace : Text.Fits 1 (ascii " ") := ⟨by decide, by decide⟩
  have hcomma : Text.Fits 2 (ascii ", ") := ⟨by decide, by decide⟩
  cases inst with
  | basic op a b =>
    obtain ⟨hop, ha, hb⟩ := h
    have hleft := ((Text.Fits.word (BasicOp.isWord_text hop)).append hspace).append (Operand.fits_text ha)
    exact (hleft.append hcomma).append (Operand.fits_text hb)
  | nonBasic op a =>
    obtain ⟨rfl, ha⟩ := h
    have hleft := (Text.Fits.word NonBasicOp.isWord_text_jsr).append hspace
    exact (hleft.append (Operand.fits_text ha)).mono (by decide)

theorem ofLine_text {inst : Instruction} (h : inst.Plain) : Token.ofLine inst.text = inst.tokens := by
  have hlexed := lexed_text h rfl .nil
  rw [List.append_nil, List.append_nil] at hlexed
  rw [Token.ofLine, (fits_text h).before_semicolon]
  exact tokensFrom_eq_iff.2 hlexed

theorem text_ne_nil (inst : Instruction) : inst.text ≠ [] := by
  cases inst <;> simp [text, ascii]

theorem lines_stacked {insts : List Instruction} (h : ∀ inst ∈ insts, inst.Plain) :
    Text.lines (Text.stacked (insts.map text)) = ⟨insts.map text, false⟩ := by
  have hfits : ∀ t ∈ insts.map text, t ≠ [] ∧ Text.Fits 39 t :=
    List.forall_mem_map.2 fun inst hinst => ⟨text_ne_nil inst, fits_text (h inst hinst)⟩
  apply Text.lines_stacked
  · intro t ht
    exact ⟨(hfits t ht).1, Text.chomp_of_notMem fun hmem => ((hfits t ht).2.ne_of_mem hmem).2.1 rfl⟩
  · intro t ht hmem
    exact ((hfits t ht).2.ne_of_mem hmem).1 rfl
  · intro t ht
    exact (hfits t ht).2.length_le.trans_lt (by decide)

end Instruction
end

end Asm16
