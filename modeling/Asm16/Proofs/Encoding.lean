import Asm16.Machine.Instruction
import Mathlib.Tactic.IntervalCases

/-! The codec of the machine. The parts of an instruction word are its digits in a mixed base, so
packing and unpacking are arithmetic; from this, decoding inverts encoding on the operands and
instructions that the machine has, and everything that decoding gives is one of those. -/

namespace Asm16

theorem Register.and_seven {reg : Register} (h : reg.index < 8) :
    reg.index &&& 7 = UInt8.ofNat reg.index.toNat := by
  have hlt : reg.index.toNat < 2 ^ 3 := h
  rw [← UInt8.toNat_inj, UInt8.toNat_and, UInt8.ofNat_toNat]
  exact Nat.and_two_pow_sub_one_of_lt_two_pow hlt

namespace Operand

/-- The operands of the machine itself: no label, and every number in the range of its field. -/
def Plain : Operand → Prop
  | register reg => reg.index < 8
  | registerIndirect reg => reg.index < 8
  | registerOffset reg offset => reg.index < 8 ∧ offset.label = none
  | special sp => sp.isNamed = true
  | memory address => address.label = none
  | nextWord value => value.label = none
  | short value => value.word ≤ shortMax ∧ value.label = none
  | pending _ => False
  | unknown _ _ _ _ => False

theorem length_of_encode {op : Operand} {field : UInt8} {literals : List UInt16}
    (h : op.encode = .ok (field, literals)) : literals.length = if op.needsWord then 1 else 0 := by
  cases op with
  | register reg | registerIndirect reg | registerOffset reg offset | memory address | nextWord value =>
    obtain ⟨rfl, rfl⟩ : _ ∧ _ := by simpa [encode] using h
    rfl
  | special sp | short value =>
    simp only [encode] at h
    split at h
    · obtain ⟨rfl, rfl⟩ : _ ∧ _ := by simpa using h
      rfl
    · contradiction
  | pending value | unknown mode reg sp value => simp [encode] at h

theorem encode_ofField {field : UInt8} (h : field ≤ fieldMask) (literal : UInt16) :
    (ofField field literal).encode =
      .ok (field, if fieldNeedsWord field then [literal] else []) := by
  have hf : field.toNat ≤ 63 := h
  rw [← UInt8.ofNat_toNat (x := field)]
  interval_cases field.toNat <;> rfl

theorem plain_ofField {field : UInt8} (h : field ≤ fieldMask) (literal : UInt16) :
    (ofField field literal).Plain := by
  have hsub : ∀ low bound : UInt8, low ≤ field → field.toNat < low.toNat + bound.toNat →
      field - low < bound := by
    intro low bound hlow hlt
    have hle : low.toNat ≤ field.toNat := hlow
    rw [UInt8.lt_iff_toNat_lt, UInt8.toNat_sub_of_le _ _ hlow]
    omega
  unfold ofField
  split_ifs with hreg hind hoff hsp hmem hnext
  · exact hreg
  · exact hsub indirectField 8 (UInt8.not_lt.1 hreg) hind
  · exact ⟨hsub offsetField 8 (UInt8.not_lt.1 hind) hoff, rfl⟩
  · rw [UInt8.not_lt] at hoff
    have hlast : field ≤ Special.last := UInt8.le_iff_toNat_le.2 (Nat.le_of_lt_succ hsp)
    simp [Plain, Special.isNamed, hoff, hlast]
  · rfl
  · rfl
  · have hlow : shortField.toNat ≤ field.toNat := by
      rw [UInt8.lt_iff_toNat_lt] at hsp
      rw [← UInt8.toNat_inj] at hmem hnext
      change ¬ field.toNat < 30 at hsp
      change ¬ field.toNat = 30 at hmem
      change ¬ field.toNat = 31 at hnext
      change 32 ≤ field.toNat
      omega
    have hlt := hsub shortField 0x20 hlow (Nat.lt_succ_of_le h)
    refine ⟨?_, rfl⟩
    change (field - shortField).toNat ≤ 31
    exact Nat.le_of_lt_succ hlt

theorem exists_ofField_of_plain {op : Operand} (h : op.Plain) :
    ∃ field ≤ fieldMask, ∃ literal, op = ofField field literal := by
  cases op with
  | register reg =>
    obtain ⟨i⟩ := reg
    refine ⟨i, ?_, 0, (if_pos h).symm⟩
    exact UInt8.le_of_lt (UInt8.lt_trans h (by decide))
  | registerIndirect reg =>
    obtain ⟨i⟩ := reg
    have hi : i.toNat < 8 := h
    rw [← UInt8.ofNat_toNat (x := i)]
    refine ⟨indirectField + UInt8.ofNat i.toNat, ?_, 0, ?_⟩ <;>
      interval_cases i.toNat <;> decide
  | registerOffset reg offset =>
    obtain ⟨⟨i⟩, ⟨word, label⟩⟩ := reg, offset
    obtain ⟨hi, rfl⟩ : i.toNat < 8 ∧ label = none := h
    rw [← UInt8.ofNat_toNat (x := i)]
    refine ⟨offsetField + UInt8.ofNat i.toNat, ?_, word, ?_⟩
    · interval_cases i.toNat <;> decide
    · interval_cases i.toNat <;> rfl
  | special sp =>
    obtain ⟨c⟩ := sp
    obtain ⟨hlow, hhigh⟩ : 0x18 ≤ c.toNat ∧ c.toNat ≤ 0x1d := by
      simpa [Plain, Special.isNamed, Special.first, Special.last, UInt8.le_iff_toNat_le] using h
    rw [← UInt8.ofNat_toNat (x := c)]
    refine ⟨UInt8.ofNat c.toNat, ?_, 0, ?_⟩ <;> interval_cases c.toNat <;> decide
  | memory address =>
    obtain ⟨word, label⟩ := address
    obtain rfl : label = none := h
    exact ⟨memoryField, by decide, word, rfl⟩
  | nextWord value =>
    obtain ⟨word, label⟩ := value
    obtain rfl : label = none := h
    exact ⟨nextWordField, by decide, word, rfl⟩
  | short value =>
    obtain ⟨word, label⟩ := value
    obtain ⟨hw, rfl⟩ : word.toNat ≤ 31 ∧ label = none := h
    rw [← UInt16.ofNat_toNat (x := word)]
    refine ⟨shortField + (UInt16.ofNat word.toNat).toUInt8, ?_, 0, ?_⟩ <;>
      interval_cases word.toNat <;> decide
  | pending value | unknown mode reg sp value => exact h.elim

theorem exists_encode_of_plain {op : Operand} (h : op.Plain) :
    ∃ field literals, op.encode = .ok (field, literals) := by
  obtain ⟨field, hle, literal, rfl⟩ := exists_ofField_of_plain h
  exact ⟨_, _, encode_ofField hle literal⟩

theorem ofField_eq_of_not_fieldNeedsWord {field : UInt8} (h : fieldNeedsWord field = false)
    (literal : UInt16) : ofField field literal = ofField field 0 := by
  simp only [fieldNeedsWord, Bool.or_eq_false_iff, Bool.and_eq_false_iff, decide_eq_false_iff_not,
    beq_eq_false_iff_ne, ne_eq] at h
  obtain ⟨⟨hoff, hmem⟩, hnext⟩ := h
  unfold ofField
  split_ifs <;> simp_all

theorem decode_of_encode {op : Operand} (h : op.Plain) {field : UInt8} {literals : List UInt16}
    (he : op.encode = .ok (field, literals)) (rest : List UInt16) :
    field ≤ fieldMask ∧ decode field (literals ++ rest) = some (op, rest) := by
  obtain ⟨field', hle, literal, rfl⟩ := exists_ofField_of_plain h
  rw [encode_ofField hle] at he
  obtain ⟨rfl, rfl⟩ : field' = field ∧ _ := by simpa using he
  refine ⟨hle, ?_⟩
  unfold decode
  cases hneeds : fieldNeedsWord field' with
  | true => rfl
  | false =>
    rw [ofField_eq_of_not_fieldNeedsWord hneeds literal]
    rfl

theorem encode_of_decode {field : UInt8} (hle : field ≤ fieldMask) {op : Operand}
    {words rest : List UInt16} (h : decode field words = some (op, rest)) :
    op.Plain ∧ ∃ literals, op.encode = .ok (field, literals) ∧ words = literals ++ rest := by
  unfold decode at h
  split at h
  · rename_i hneeds
    cases words with
    | nil => contradiction
    | cons literal tail =>
      obtain ⟨rfl, rfl⟩ : ofField field literal = op ∧ tail = rest := by simpa using h
      refine ⟨plain_ofField hle literal, [literal], ?_, rfl⟩
      rw [encode_ofField hle, if_pos hneeds]
  · rename_i hneeds
    obtain ⟨rfl, rfl⟩ : ofField field 0 = op ∧ words = rest := by simpa using h
    refine ⟨plain_ofField hle 0, [], ?_, rfl⟩
    rw [encode_ofField hle, if_neg hneeds]

end Operand

namespace Code

theorem toNat_field_shiftLeft {field : UInt8} (h : field ≤ Operand.fieldMask) {k : UInt16} (hk : k ≤ 10) :
    ((field &&& Operand.fieldMask).toUInt16 <<< k).toNat = 2 ^ k.toNat * field.toNat := by
  have hkLe : k.toNat ≤ 10 := hk
  have hlt : field.toNat < 2 ^ 6 := Nat.lt_succ_of_le h
  have hmask : (field &&& Operand.fieldMask).toNat = field.toNat := by
    rw [UInt8.toNat_and]
    exact Nat.and_two_pow_sub_one_of_lt_two_pow hlt
  have hshift : k.toNat % 16 = k.toNat := Nat.mod_eq_of_lt (by omega)
  have hfit : 2 ^ k.toNat * field.toNat < 2 ^ 16 :=
    calc 2 ^ k.toNat * field.toNat < 2 ^ k.toNat * 2 ^ 6 := by gcongr
      _ ≤ 2 ^ 10 * 2 ^ 6 := by gcongr; decide
  rw [UInt16.toNat_shiftLeft, UInt8.toNat_toUInt16, hmask, hshift, Nat.shiftLeft_eq, Nat.mul_comm]
  exact Nat.mod_eq_of_lt hfit

theorem toNat_basic {op : BasicOp} {a b : UInt8} (hop : op.code ≤ 15) (ha : a ≤ Operand.fieldMask)
    (hb : b ≤ Operand.fieldMask) (literals : List UInt16) :
    (basic op a b literals).word.toNat = b.toNat * 1024 + a.toNat * 16 + op.code.toNat := by
  have hopLt : op.code.toNat < 2 ^ 4 := Nat.lt_succ_of_le hop
  have haLt : a.toNat < 64 := Nat.lt_succ_of_le ha
  have hnibble : (op.code &&& 0xf).toUInt16.toNat = op.code.toNat := by
    rw [UInt8.toNat_toUInt16, UInt8.toNat_and]
    exact Nat.and_two_pow_sub_one_of_lt_two_pow hopLt
  have hlow : 2 ^ 4 * a.toNat + op.code.toNat < 2 ^ 10 := by omega
  have hshiftA : ((a &&& Operand.fieldMask).toUInt16 <<< 4).toNat = 2 ^ 4 * a.toNat :=
    toNat_field_shiftLeft ha (by decide)
  have hshiftB : ((b &&& Operand.fieldMask).toUInt16 <<< 10).toNat = 2 ^ 10 * b.toNat :=
    toNat_field_shiftLeft hb (by decide)
  simp only [basic, UInt16.toNat_or]
  -- The parts do not overlap, so that joining their bits adds them up.
  rw [hnibble, hshiftA, hshiftB, Nat.or_assoc, ← Nat.two_pow_add_eq_or_of_lt hopLt,
    ← Nat.two_pow_add_eq_or_of_lt hlow]
  omega

theorem toNat_nonBasic {op : NonBasicOp} {a : UInt8} (hop : op.code ≤ Operand.fieldMask)
    (ha : a ≤ Operand.fieldMask) (literals : List UInt16) :
    (nonBasic op a literals).word.toNat = a.toNat * 1024 + op.code.toNat * 16 := by
  have hopLt : op.code.toNat < 64 := Nat.lt_succ_of_le hop
  have hlow : 2 ^ 4 * op.code.toNat < 2 ^ 10 := by omega
  have hshiftOp : ((op.code &&& Operand.fieldMask).toUInt16 <<< 4).toNat = 2 ^ 4 * op.code.toNat :=
    toNat_field_shiftLeft hop (by decide)
  have hshiftA : ((a &&& Operand.fieldMask).toUInt16 <<< 10).toNat = 2 ^ 10 * a.toNat :=
    toNat_field_shiftLeft ha (by decide)
  simp only [nonBasic, UInt16.toNat_or]
  rw [hshiftOp, hshiftA, ← Nat.two_pow_add_eq_or_of_lt hlow]
  omega

theorem toNat_ofNat_field {field : Nat} (h : field ≤ 63) : (UInt8.ofNat field).toNat = field := by
  rw [UInt8.toNat_ofNat']
  omega

theorem ofNat_le_fieldMask {field : Nat} (h : field ≤ 63) : UInt8.ofNat field ≤ Operand.fieldMask := by
  rw [UInt8.le_iff_toNat_le, toNat_ofNat_field h]
  exact h

theorem words_basic {op : BasicOp} {fieldA fieldB : Nat} (hop : op.code ≤ 15) (ha : fieldA ≤ 63)
    (hb : fieldB ≤ 63) (literals : List UInt16) :
    (basic op (UInt8.ofNat fieldA) (UInt8.ofNat fieldB) literals).words =
      UInt16.ofNat (fieldB * 1024 + fieldA * 16 + op.code.toNat) :: literals := by
  have hword := toNat_basic hop (ofNat_le_fieldMask ha) (ofNat_le_fieldMask hb) literals
  rw [toNat_ofNat_field ha, toNat_ofNat_field hb] at hword
  rw [← hword, UInt16.ofNat_toNat]
  rfl

theorem words_nonBasic {op : NonBasicOp} {field : Nat} (hop : op.code ≤ Operand.fieldMask)
    (h : field ≤ 63) (literals : List UInt16) :
    (nonBasic op (UInt8.ofNat field) literals).words =
      UInt16.ofNat (field * 1024 + op.code.toNat * 16) :: literals := by
  have hword := toNat_nonBasic hop (ofNat_le_fieldMask h) literals
  rw [toNat_ofNat_field h] at hword
  rw [← hword, UInt16.ofNat_toNat]
  rfl

theorem toNat_basicOp (code : Code) : code.basicOp.code.toNat = code.word.toNat % 16 := by
  simp only [basicOp, UInt16.toNat_toUInt8, UInt16.toNat_and]
  change (code.word.toNat &&& (2 ^ 4 - 1)) % 256 = _
  rw [Nat.and_two_pow_sub_one_eq_mod]
  omega

theorem toNat_lowField (code : Code) : code.lowField.toNat = code.word.toNat / 16 % 64 := by
  simp only [lowField, UInt16.toNat_toUInt8, UInt16.toNat_and, UInt16.toNat_shiftRight]
  change (code.word.toNat >>> 4 &&& (2 ^ 6 - 1)) % 256 = _
  rw [Nat.and_two_pow_sub_one_eq_mod, Nat.shiftRight_eq_div_pow]
  omega

theorem toNat_highField (code : Code) : code.highField.toNat = code.word.toNat / 1024 := by
  have hlt := code.word.toNat_lt
  simp only [highField, UInt16.toNat_toUInt8, UInt16.toNat_and, UInt16.toNat_shiftRight]
  change (code.word.toNat >>> 10 &&& (2 ^ 6 - 1)) % 256 = _
  rw [Nat.and_two_pow_sub_one_eq_mod, Nat.shiftRight_eq_div_pow]
  omega

theorem lowField_le (code : Code) : code.lowField ≤ Operand.fieldMask := by
  have h := code.toNat_lowField
  change code.lowField.toNat ≤ 63
  omega

theorem highField_le (code : Code) : code.highField ≤ Operand.fieldMask := by
  have h := code.toNat_highField
  have hlt := code.word.toNat_lt
  change code.highField.toNat ≤ 63
  omega

/-- An instruction word is the number with its parts as digits. -/
theorem toNat_word (code : Code) : code.word.toNat =
    code.highField.toNat * 1024 + code.lowField.toNat * 16 + code.basicOp.code.toNat := by
  rw [toNat_basicOp, toNat_lowField, toNat_highField]
  omega

theorem parts_of_toNat {code : Code} {op : BasicOp} {a b : UInt8} (hop : op.code ≤ 15)
    (ha : a ≤ Operand.fieldMask) (hb : b ≤ Operand.fieldMask)
    (h : code.word.toNat = b.toNat * 1024 + a.toNat * 16 + op.code.toNat) :
    code.basicOp = op ∧ code.lowField = a ∧ code.highField = b := by
  have hopLe : op.code.toNat ≤ 15 := hop
  have haLe : a.toNat ≤ 63 := ha
  have hbLe : b.toNat ≤ 63 := hb
  have hcode : code.basicOp.code = op.code := by
    rw [← UInt8.toNat_inj, toNat_basicOp]
    omega
  refine ⟨congrArg BasicOp.mk hcode, ?_, ?_⟩
  · rw [← UInt8.toNat_inj, toNat_lowField]
    omega
  · rw [← UInt8.toNat_inj, toNat_highField]
    omega

theorem basicOp_le (code : Code) : code.basicOp.code ≤ 15 := by
  have h := code.toNat_basicOp
  change code.basicOp.code.toNat ≤ 15
  omega

theorem isBasic_iff (code : Code) : code.isBasic = true ↔ 1 ≤ code.basicOp.code := by
  rw [isBasic, bne_iff_ne, ne_eq, ← UInt8.toNat_inj, UInt8.le_iff_toNat_le]
  change ¬ _ = 0 ↔ 1 ≤ _
  omega

end Code

namespace Instruction

def Plain : Instruction → Prop
  | basic op a b => (1 ≤ op.code ∧ op.code ≤ 15) ∧ a.Plain ∧ b.Plain
  | nonBasic op a => op = NonBasicOp.jsr ∧ a.Plain

theorem encode_basic_eq_ok_iff {op : BasicOp} {a b : Operand} {code : Code} :
    (basic op a b).encode = .ok code ↔ ∃ fieldA literalsA fieldB literalsB,
      a.encode = .ok (fieldA, literalsA) ∧ b.encode = .ok (fieldB, literalsB) ∧
        code = Code.basic op fieldA fieldB (literalsA ++ literalsB) := by
  simp only [encode]
  cases a.encode with
  | error e => simp
  | ok codeA =>
    cases b.encode with
    | error e => simp
    | ok codeB =>
      constructor
      · intro h
        exact ⟨_, _, _, _, rfl, rfl, (Except.ok.inj h).symm⟩
      · rintro ⟨_, _, _, _, ha, hb, rfl⟩
        cases ha
        cases hb
        rfl

theorem encode_nonBasic_eq_ok_iff {op : NonBasicOp} {a : Operand} {code : Code} :
    (nonBasic op a).encode = .ok code ↔ ∃ field literals,
      a.encode = .ok (field, literals) ∧ code = Code.nonBasic op field literals := by
  simp only [encode]
  cases a.encode with
  | error e => simp
  | ok codeA =>
    constructor
    · intro h
      exact ⟨_, _, rfl, (Except.ok.inj h).symm⟩
    · rintro ⟨_, _, ha, rfl⟩
      cases ha
      rfl

theorem length_of_encode {inst : Instruction} {code : Code} (h : inst.encode = .ok code) :
    code.words.length = inst.size := by
  cases inst with
  | basic op a b =>
    obtain ⟨_, _, _, _, ha, hb, rfl⟩ := encode_basic_eq_ok_iff.1 h
    simp only [Code.words, Code.basic, List.length_cons, List.length_append,
      Operand.length_of_encode ha, Operand.length_of_encode hb, size, operands, List.countP_cons,
      List.countP_nil]
    omega
  | nonBasic op a =>
    obtain ⟨_, _, ha, rfl⟩ := encode_nonBasic_eq_ok_iff.1 h
    simp only [Code.words, Code.nonBasic, List.length_cons, Operand.length_of_encode ha, size,
      operands, List.countP_cons, List.countP_nil]
    omega

theorem exists_encode_of_plain {inst : Instruction} (h : inst.Plain) :
    ∃ code, inst.encode = .ok code := by
  cases inst with
  | basic op a b =>
    obtain ⟨_, _, ha⟩ := Operand.exists_encode_of_plain h.2.1
    obtain ⟨_, _, hb⟩ := Operand.exists_encode_of_plain h.2.2
    exact ⟨_, encode_basic_eq_ok_iff.2 ⟨_, _, _, _, ha, hb, rfl⟩⟩
  | nonBasic op a =>
    obtain ⟨_, _, ha⟩ := Operand.exists_encode_of_plain h.2
    exact ⟨_, encode_nonBasic_eq_ok_iff.2 ⟨_, _, ha, rfl⟩⟩

/-- Decoding inverts encoding, whatever words follow. -/
theorem decode_of_encode {inst : Instruction} (h : inst.Plain) {code : Code}
    (he : inst.encode = .ok code) (rest : List UInt16) :
    decode (code.words ++ rest) = .instruction inst rest := by
  cases inst with
  | basic op a b =>
    obtain ⟨⟨hopLow, hopHigh⟩, hplainA, hplainB⟩ := h
    obtain ⟨fieldA, literalsA, fieldB, literalsB, ha, hb, rfl⟩ := encode_basic_eq_ok_iff.1 he
    obtain ⟨hleA, hdecodeA⟩ := Operand.decode_of_encode hplainA ha (literalsB ++ rest)
    obtain ⟨hleB, hdecodeB⟩ := Operand.decode_of_encode hplainB hb rest
    have hword := Code.toNat_basic hopHigh hleA hleB (literalsA ++ literalsB)
    change decode ((Code.basic op fieldA fieldB (literalsA ++ literalsB)).word ::
      (literalsA ++ literalsB ++ rest)) = _
    generalize (Code.basic op fieldA fieldB (literalsA ++ literalsB)).word = word at hword
    obtain ⟨hop, hlow, hhigh⟩ : (⟨word, []⟩ : Code).basicOp = op ∧ _ ∧ _ :=
      Code.parts_of_toNat hopHigh hleA hleB hword
    have hbasic : (⟨word, []⟩ : Code).isBasic = true := by
      rw [Code.isBasic_iff, hop]
      exact hopLow
    simp only [decode]
    rw [if_pos hbasic, hop, hlow, hhigh, List.append_assoc, hdecodeA]
    simp only [hdecodeB]
  | nonBasic op a =>
    obtain ⟨rfl, hplain⟩ := h
    obtain ⟨field, literals, ha, rfl⟩ := encode_nonBasic_eq_ok_iff.1 he
    obtain ⟨hle, hdecode⟩ := Operand.decode_of_encode hplain ha rest
    have hjsrLe : NonBasicOp.jsr.code ≤ Operand.fieldMask := by decide
    have hword := Code.toNat_nonBasic hjsrLe hle literals
    change decode ((Code.nonBasic NonBasicOp.jsr field literals).word :: (literals ++ rest)) = _
    generalize (Code.nonBasic NonBasicOp.jsr field literals).word = word at hword
    rw [← Nat.add_zero (_ + _)] at hword
    obtain ⟨hop, hlow, hhigh⟩ : (⟨word, []⟩ : Code).basicOp = ⟨0⟩ ∧ _ ∧ _ :=
      Code.parts_of_toNat (by decide) hjsrLe hle hword
    have hbasic : ¬ (⟨word, []⟩ : Code).isBasic = true := by
      rw [Code.isBasic_iff, hop]
      decide
    have hjsr : (⟨word, []⟩ : Code).nonBasicOp = NonBasicOp.jsr := by
      rw [Code.nonBasicOp, hlow]
    simp only [decode]
    rw [if_neg hbasic, if_pos hjsr, hhigh, hdecode]

/-- What was decoded is an instruction of the machine, and its encoding is what was read. -/
theorem encode_of_decode {words rest : List UInt16} {inst : Instruction}
    (h : decode words = .instruction inst rest) :
    inst.Plain ∧ ∃ code, inst.encode = .ok code ∧ words = code.words ++ rest := by
  cases words with
  | nil => simp [decode] at h
  | cons word tail =>
    have hopHigh := (⟨word, []⟩ : Code).basicOp_le
    have hlowLe := (⟨word, []⟩ : Code).lowField_le
    have hhighLe := (⟨word, []⟩ : Code).highField_le
    have hparts := (⟨word, []⟩ : Code).toNat_word
    simp only [decode] at h
    split at h
    · rename_i hbasic
      have hopLow := (Code.isBasic_iff _).1 hbasic
      split at h
      · contradiction
      · rename_i a restA ha
        split at h
        · contradiction
        · rename_i b restB hb
          obtain ⟨rfl, rfl⟩ : _ ∧ restB = rest := by simpa using h
          obtain ⟨hplainA, literalsA, hencodeA, rfl⟩ := Operand.encode_of_decode hlowLe ha
          obtain ⟨hplainB, literalsB, hencodeB, rfl⟩ := Operand.encode_of_decode hhighLe hb
          refine ⟨⟨⟨hopLow, hopHigh⟩, hplainA, hplainB⟩, _,
            encode_basic_eq_ok_iff.2 ⟨_, _, _, _, hencodeA, hencodeB, rfl⟩, ?_⟩
          have hword := Code.toNat_basic hopHigh hlowLe hhighLe (literalsA ++ literalsB)
          rw [← hparts, UInt16.toNat_inj] at hword
          rw [← List.append_assoc, Code.words, hword]
          rfl
    · rename_i hbasic
      split at h
      · rename_i hjsr
        split at h
        · contradiction
        · rename_i a restA ha
          obtain ⟨rfl, rfl⟩ : _ ∧ restA = rest := by simpa using h
          obtain ⟨hplain, literals, hencode, rfl⟩ := Operand.encode_of_decode hhighLe ha
          refine ⟨⟨rfl, hplain⟩, _, encode_nonBasic_eq_ok_iff.2 ⟨_, _, hencode, rfl⟩, ?_⟩
          have hjsrLe : NonBasicOp.jsr.code ≤ Operand.fieldMask := by decide
          have hword := Code.toNat_nonBasic hjsrLe hhighLe literals
          -- The nibble of a basic instruction is zero here, so that the two fields are the whole word.
          have hnibble : (⟨word, []⟩ : Code).basicOp.code.toNat = 0 := by
            rw [Code.isBasic_iff, UInt8.not_le] at hbasic
            exact Nat.lt_one_iff.1 hbasic
          rw [← hjsr, Code.nonBasicOp, ← Nat.add_zero (_ + _), ← hnibble, ← hparts,
            UInt16.toNat_inj] at hword
          rw [← hjsr, Code.nonBasicOp, Code.words, hword]
          rfl
      · contradiction

end Instruction
end Asm16
