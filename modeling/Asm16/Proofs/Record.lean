import Asm16.Machine.Record
import Asm16.Proofs.Encoding

/-! The encoding of records. A record may hold anything, and whether it has a code is decided by the operands that
count: each of them must be of an addressing mode that has a field, with a number that fits it. If they are, then every
part of the instruction word is what its own operand or operation gives, and nothing of another part. -/

namespace Asm16

namespace OperandRecord

/-- An operand without a field: a label without an address, no addressing mode, no special operand, or a literal that
is too large. -/
def Faulty (r : OperandRecord) : Prop :=
  r.kind = 7 ∨ ¬ (0 ≤ r.kind ∧ r.kind ≤ 7) ∨
    (r.kind = 3 ∧ ¬ (0x18 ≤ r.special ∧ r.special ≤ 0x1d)) ∨ (r.kind = 6 ∧ 0x1f < r.value)

instance (r : OperandRecord) : Decidable r.Faulty :=
  inferInstanceAs (Decidable (_ ∨ ¬ (_ ∧ _) ∨ (_ ∧ ¬ (_ ∧ _)) ∨ (_ ∧ _)))

def fault (r : OperandRecord) : Fault :=
  if r.kind = 7 then .labelMissing r.label
  else if r.kind = 3 then .fieldOutOfRange r.special
  else if r.kind = 6 then .fieldOutOfRange (0x20 + r.value.toUInt8)
  else .notValue (Operand.describe r.kind ⟨r.register⟩ ⟨r.special⟩ r.labelled)

theorem getD_label_labelled (r : OperandRecord) : r.labelled.label.getD [] = r.label := by
  cases h : r.label <;> simp [labelled, h]

theorem operand_of_no_mode {r : OperandRecord} (h : ¬ (0 ≤ r.kind ∧ r.kind ≤ 7)) :
    r.operand = .unknown r.kind ⟨r.register⟩ ⟨r.special⟩ r.labelled := by
  unfold operand
  split
  case h_9 => rfl
  all_goals omega

theorem isNamed_special_iff (r : OperandRecord) :
    (⟨r.special⟩ : Special).isNamed = true ↔ 0x18 ≤ r.special ∧ r.special ≤ 0x1d := by
  simp only [Special.isNamed, Bool.and_eq_true, decide_eq_true_eq]
  rfl

theorem encode_operand_of_faulty {r : OperandRecord} (h : r.Faulty) : r.operand.encode = .error r.fault := by
  rcases h with hlabel | hmode | ⟨hspecial, hrange⟩ | ⟨hshort, hlarge⟩
  · simp only [operand, hlabel, Operand.encode, fault, if_true, getD_label_labelled]
  · have hlabel : r.kind ≠ 7 := by omega
    have hspecial : r.kind ≠ 3 := by omega
    have hshort : r.kind ≠ 6 := by omega
    rw [operand_of_no_mode hmode, fault, if_neg hlabel, if_neg hspecial, if_neg hshort]
    rfl
  · rw [← isNamed_special_iff] at hrange
    simp [operand, hspecial, Operand.encode, fault, hrange]
  · have hnot : ¬ r.labelled.word ≤ Operand.shortMax := UInt16.not_le.2 hlarge
    simp only [operand, hshort, Operand.encode, fault, if_neg hnot]
    rfl

theorem exists_encode_operand {r : OperandRecord} (h : ¬ r.Faulty) :
    ∃ field literals, r.operand.encode = .ok (field, literals) := by
  simp only [Faulty, not_or, not_not] at h
  obtain ⟨hlabel, ⟨hlow, hhigh⟩, hspecial, hshort⟩ := h
  have hmodes : r.kind = 0 ∨ r.kind = 1 ∨ r.kind = 2 ∨ r.kind = 3 ∨ r.kind = 4 ∨ r.kind = 5 ∨
      r.kind = 6 := by omega
  -- Only a special operand and a short literal have a range to keep to.
  rcases hmodes with hkind | hkind | hkind | hkind | hkind | hkind | hkind <;> simp only [operand, hkind]
  · exact ⟨_, _, rfl⟩
  · exact ⟨_, _, rfl⟩
  · exact ⟨_, _, rfl⟩
  · have hrange : 0x18 ≤ r.special ∧ r.special ≤ 0x1d := by_contra fun hnot => hspecial ⟨hkind, hnot⟩
    exact ⟨_, _, if_pos ((isNamed_special_iff r).2 hrange)⟩
  · exact ⟨_, _, rfl⟩
  · exact ⟨_, _, rfl⟩
  · have hle : r.labelled.word ≤ Operand.shortMax := UInt16.not_lt.1 fun hlt => hshort ⟨hkind, hlt⟩
    exact ⟨_, _, if_pos hle⟩

end OperandRecord

namespace Operand

theorem and_le_mask (x mask : UInt8) : x &&& mask ≤ mask := by
  rw [UInt8.le_iff_toNat_le, UInt8.toNat_and]
  exact Nat.and_le_right

theorem add_and_seven_le {low : UInt8} (h : low.toNat ≤ 56) (index : UInt8) : low + (index &&& 7) ≤ fieldMask := by
  have hindex : (index &&& 7).toNat ≤ 7 := and_le_mask index 7
  rw [UInt8.le_iff_toNat_le, UInt8.toNat_add]
  change _ ≤ 63
  omega

/-- A field has six bits, whatever numbers the operand has. -/
theorem field_le_of_encode {op : Operand} {field : UInt8} {literals : List UInt16}
    (h : op.encode = .ok (field, literals)) : field ≤ fieldMask := by
  cases op with
  | register reg =>
    obtain ⟨rfl, -⟩ : _ ∧ _ := by simpa [encode] using h
    exact UInt8.le_trans (and_le_mask reg.index 7) (by decide)
  | registerIndirect reg | registerOffset reg offset =>
    obtain ⟨rfl, -⟩ : _ ∧ _ := by simpa [encode] using h
    exact add_and_seven_le (by decide) reg.index
  | memory address | nextWord value =>
    obtain ⟨rfl, -⟩ : _ ∧ _ := by simpa [encode] using h
    decide
  | special sp =>
    simp only [encode] at h
    split at h
    · rename_i hnamed
      obtain ⟨rfl, -⟩ : _ ∧ _ := by simpa using h
      obtain ⟨-, hlast⟩ : _ ∧ _ := by simpa [Special.isNamed] using hnamed
      exact UInt8.le_trans hlast (by decide)
    · contradiction
  | short value =>
    simp only [encode] at h
    split at h
    · rename_i hle
      obtain ⟨rfl, -⟩ : _ ∧ _ := by simpa using h
      have hword : value.word.toNat ≤ 31 := hle
      rw [UInt8.le_iff_toNat_le, UInt8.toNat_add, UInt16.toNat_toUInt8]
      change (32 + _) % 256 ≤ 63
      omega
    · contradiction
  | pending value | unknown mode reg sp value => simp [encode] at h

end Operand

namespace Code

theorem basic_and (op : BasicOp) (a b : UInt8) (literals : List UInt16) :
    basic ⟨op.code &&& 0xf⟩ a b literals = basic op a b literals := by
  simp only [basic, UInt8.and_assoc, UInt8.and_self]

theorem nonBasic_and (op : NonBasicOp) (a : UInt8) (literals : List UInt16) :
    nonBasic ⟨op.code &&& Operand.fieldMask⟩ a literals = nonBasic op a literals := by
  simp only [nonBasic, UInt8.and_assoc, UInt8.and_self]

theorem parts_basic (op : BasicOp) {a b : UInt8} (ha : a ≤ Operand.fieldMask) (hb : b ≤ Operand.fieldMask)
    (literals : List UInt16) :
    (basic op a b literals).basicOp = ⟨op.code &&& 0xf⟩ ∧ (basic op a b literals).lowField = a ∧
      (basic op a b literals).highField = b := by
  have hop : op.code &&& 0xf ≤ 15 := Operand.and_le_mask _ _
  rw [← basic_and]
  exact parts_of_toNat hop ha hb (toNat_basic hop ha hb literals)

theorem parts_nonBasic (op : NonBasicOp) {a : UInt8} (ha : a ≤ Operand.fieldMask) (literals : List UInt16) :
    (nonBasic op a literals).basicOp = ⟨0⟩ ∧
      (nonBasic op a literals).lowField = op.code &&& Operand.fieldMask ∧
      (nonBasic op a literals).highField = a := by
  have hop : op.code &&& Operand.fieldMask ≤ Operand.fieldMask := Operand.and_le_mask _ _
  have hword := toNat_nonBasic hop ha literals
  rw [← Nat.add_zero (_ + _)] at hword
  rw [← nonBasic_and]
  exact parts_of_toNat (by decide) hop ha hword

end Code

namespace InstructionRecord

def used (r : InstructionRecord) : List OperandRecord := if r.basic = 0 then [r.a] else [r.a, r.b]

theorem encode_of_find_eq_some {r : InstructionRecord} {o : OperandRecord}
    (h : r.used.find? (fun o => decide o.Faulty) = some o) : r.instruction.encode = .error o.fault := by
  unfold used at h
  by_cases ha : r.a.Faulty
  · have hfault := OperandRecord.encode_operand_of_faulty ha
    obtain rfl : r.a = o := by split_ifs at h <;> simpa [ha] using h
    unfold instruction
    split_ifs <;> simp only [Instruction.encode, hfault]
  · obtain ⟨field, literals, hok⟩ := OperandRecord.exists_encode_operand ha
    by_cases hbasic : r.basic = 0
    · simp [hbasic, ha] at h
    · obtain ⟨hb, rfl⟩ : r.b.Faulty ∧ r.b = o := by simpa [hbasic, ha] using h
      simp only [instruction, if_neg hbasic, Instruction.encode, hok, OperandRecord.encode_operand_of_faulty hb]

theorem exists_encode_of_find_eq_none {r : InstructionRecord}
    (h : r.used.find? (fun o => decide o.Faulty) = none) : ∃ code, r.instruction.encode = .ok code := by
  have hfits : ∀ o ∈ r.used, ¬ o.Faulty := by simpa using h
  unfold used at hfits
  unfold instruction
  split_ifs at hfits ⊢ with hbasic
  · obtain ⟨field, literals, ha⟩ := OperandRecord.exists_encode_operand (hfits r.a (by simp))
    exact ⟨_, Instruction.encode_nonBasic_eq_ok_iff.2 ⟨_, _, ha, rfl⟩⟩
  · obtain ⟨fieldA, literalsA, ha⟩ := OperandRecord.exists_encode_operand (hfits r.a (by simp))
    obtain ⟨fieldB, literalsB, hb⟩ := OperandRecord.exists_encode_operand (hfits r.b (by simp))
    exact ⟨_, Instruction.encode_basic_eq_ok_iff.2 ⟨_, _, _, _, ha, hb, rfl⟩⟩

theorem encode_eq_error_iff (r : InstructionRecord) (fault : Fault) :
    r.instruction.encode = .error fault ↔
      ∃ o, r.used.find? (fun o => decide o.Faulty) = some o ∧ fault = o.fault := by
  constructor
  · intro h
    cases hfind : r.used.find? (fun o => decide o.Faulty) with
    | none =>
      obtain ⟨code, hok⟩ := exists_encode_of_find_eq_none hfind
      rw [hok] at h
      contradiction
    | some o =>
      rw [encode_of_find_eq_some hfind] at h
      exact ⟨o, rfl, (Except.error.inj h).symm⟩
  · rintro ⟨o, hfind, rfl⟩
    exact encode_of_find_eq_some hfind

theorem exists_encode_eq_error_iff (r : InstructionRecord) :
    (∃ fault, r.instruction.encode = .error fault) ↔ ∃ o ∈ r.used, o.Faulty := by
  simp only [encode_eq_error_iff]
  constructor
  · rintro ⟨_, o, hfind, -⟩
    have hfaulty := List.find?_some hfind
    exact ⟨o, List.mem_of_find?_eq_some hfind, of_decide_eq_true hfaulty⟩
  · rintro ⟨o, hmem, hfaulty⟩
    have hsome : (r.used.find? (fun o => decide o.Faulty)).isSome :=
      List.find?_isSome.2 ⟨o, hmem, decide_eq_true hfaulty⟩
    obtain ⟨first, hfind⟩ := Option.isSome_iff_exists.1 hsome
    exact ⟨first.fault, first, hfind, rfl⟩

/-- Encoding fails for a faulty operand that counts, and for nothing else, and the first one is reported. Otherwise
there are as many words as the size says, and each operand has its six bits of the instruction word to itself. -/
theorem encode_instruction (r : InstructionRecord) :
    ((∃ fault, r.instruction.encode = .error fault) ↔ ∃ o ∈ r.used, o.Faulty) ∧
    (∀ fault, r.instruction.encode = .error fault ↔
      ∃ o, r.used.find? (fun o => decide o.Faulty) = some o ∧ fault = o.fault) ∧
    ∀ code, r.instruction.encode = .ok code →
      code.words.length = r.instruction.size ∧
      (r.basic ≠ 0 → ∃ fieldA literalsA fieldB literalsB,
        r.a.operand.encode = .ok (fieldA, literalsA) ∧ r.b.operand.encode = .ok (fieldB, literalsB) ∧
        fieldA ≤ 0x3f ∧ fieldB ≤ 0x3f ∧ code.basicOp.code = r.basic &&& 0xf ∧ code.lowField = fieldA ∧
        code.highField = fieldB ∧ code.literals = literalsA ++ literalsB) ∧
      (r.basic = 0 → ∃ field literals, r.a.operand.encode = .ok (field, literals) ∧ field ≤ 0x3f ∧
        code.basicOp.code = 0 ∧ code.lowField = r.nonBasic &&& 0x3f ∧ code.highField = field ∧
        code.literals = literals) := by
  refine ⟨exists_encode_eq_error_iff r, encode_eq_error_iff r, ?_⟩
  intro code h
  refine ⟨Instruction.length_of_encode h, ?_, ?_⟩
  · intro hbasic
    rw [instruction, if_neg hbasic] at h
    obtain ⟨fieldA, literalsA, fieldB, literalsB, ha, hb, rfl⟩ := Instruction.encode_basic_eq_ok_iff.1 h
    have hleA := Operand.field_le_of_encode ha
    have hleB := Operand.field_le_of_encode hb
    obtain ⟨hop, hlow, hhigh⟩ := Code.parts_basic ⟨r.basic⟩ hleA hleB (literalsA ++ literalsB)
    exact ⟨fieldA, literalsA, fieldB, literalsB, ha, hb, hleA, hleB, congrArg BasicOp.code hop, hlow, hhigh, rfl⟩
  · intro hbasic
    rw [instruction, if_pos hbasic] at h
    obtain ⟨field, literals, ha, rfl⟩ := Instruction.encode_nonBasic_eq_ok_iff.1 h
    have hle := Operand.field_le_of_encode ha
    obtain ⟨hop, hlow, hhigh⟩ := Code.parts_nonBasic ⟨r.nonBasic⟩ hle literals
    exact ⟨field, literals, ha, hle, congrArg BasicOp.code hop, hlow, hhigh, rfl⟩

def outOfRange : InstructionRecord := ⟨1, 0, ⟨3, 0, 0x17, 0, []⟩, ⟨6, 0, 0, 0x20, []⟩⟩

/-- Numbers that are larger than their parts of the word, where nothing checks them. -/
def oversized : InstructionRecord := ⟨0xf2, 0xff, ⟨2, 0xff, 0xff, 0xffff, []⟩, ⟨5, 0xff, 0xff, 0xffff, []⟩⟩

theorem encode_instruction_outOfRange_oversized :
    outOfRange.instruction.encode = .error (.fieldOutOfRange 0x17) ∧
      ∃ code, oversized.instruction.encode = .ok code ∧ code.words.length = oversized.instruction.size ∧
        code.basicOp.code = 2 ∧ code.lowField ≤ 0x3f ∧ code.highField ≤ 0x3f := by
  refine ⟨((encode_instruction outOfRange).2.1 _).2 ⟨outOfRange.a, by decide, by decide⟩, ?_⟩
  obtain ⟨code, hcode⟩ : ∃ code, oversized.instruction.encode = .ok code := ⟨_, rfl⟩
  obtain ⟨hlength, hparts, -⟩ := (encode_instruction oversized).2.2 code hcode
  obtain ⟨_, _, _, _, -, -, hleA, hleB, hop, rfl, rfl, -⟩ := hparts (by decide)
  exact ⟨code, hcode, hlength, hop, hleA, hleB⟩

end InstructionRecord
end Asm16
