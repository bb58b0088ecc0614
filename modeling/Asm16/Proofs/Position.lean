import Asm16.Machine.Position
import Asm16.Proofs.Visit

/-! Decoding at a position. The number of words of an instruction is told in three ways: by the fields of
its first word, by its operands, and by the positions at which the operands are read one after the other.
They agree, so that decoding fails exactly where fewer words are left than the first one asks for, and what
it gives is encoded in the words that it passed over. -/

namespace Asm16

namespace Operand

variable {field : UInt8} {words rest : List UInt16} {op : Operand}

def fieldNeed (field : UInt8) : Nat := (fieldNeedsWord field).toNat

theorem needsWord_ofField (hle : field ≤ fieldMask) (literal : UInt16) :
    (ofField field literal).needsWord = fieldNeedsWord field := by
  have hlength := length_of_encode (encode_ofField hle literal)
  cases hop : (ofField field literal).needsWord <;> cases hfield : fieldNeedsWord field <;>
    simp [hop, hfield] at hlength ⊢

theorem decode_eq_none_iff : decode field words = none ↔ words.length < fieldNeed field := by
  unfold decode fieldNeed
  cases fieldNeedsWord field with
  | true => cases words <;> simp
  | false => simp

theorem length_eq_of_decode {position : Nat} (h : decode field (words.drop position) = none)
    (hle : position ≤ words.length) : words.length = position := by
  have hshort := decode_eq_none_iff.1 h
  have hone : fieldNeed field ≤ 1 := Bool.toNat_le _
  rw [List.length_drop] at hshort
  omega

theorem decode_eq_some (h : decode field words = some (op, rest)) :
    fieldNeed field ≤ words.length ∧ rest = words.drop (fieldNeed field) ∧
      ∃ literal, op = ofField field literal := by
  unfold decode at h
  unfold fieldNeed
  cases hneeds : fieldNeedsWord field with
  | true =>
    cases words with
    | nil => simp [hneeds] at h
    | cons literal tail =>
      obtain ⟨rfl, rfl⟩ : ofField field literal = op ∧ tail = rest := by simpa [hneeds] using h
      exact ⟨Nat.le_add_left 1 tail.length, rfl, literal, rfl⟩
  | false =>
    obtain ⟨rfl, rfl⟩ : ofField field 0 = op ∧ words = rest := by simpa [hneeds] using h
    exact ⟨Nat.zero_le _, rfl, 0, rfl⟩

/-- Reading at a position is decoding the words from there on. -/
theorem decodeAt_natCast (hle : field ≤ fieldMask) (words : List UInt16) (position : Nat) :
    decodeAt field words position =
      match decode field (words.drop position) with
      | some (op, _) => .ok ⟨op, (position + fieldNeed field : Nat), false⟩
      | none => .ok ⟨ofField field 0, position, true⟩ := by
  have hpositive : ¬ (position : Int) < 0 := Int.not_lt.2 (Int.natCast_nonneg position)
  unfold decodeAt decode fieldNeed
  rw [if_neg (UInt8.not_lt.2 hle)]
  cases hneeds : fieldNeedsWord field with
  | false => simp
  | true =>
    rw [if_neg (by decide), if_neg hpositive, if_pos rfl, Int.toNat_natCast, ← List.head?_drop]
    cases words.drop position with
    | nil => rfl
    | cons literal tail => rfl

theorem toNat_needsWord_of_decode (hle : field ≤ fieldMask) (h : decode field words = some (op, rest)) :
    op.needsWord.toNat = fieldNeed field := by
  obtain ⟨-, -, literal, rfl⟩ := decode_eq_some h
  rw [needsWord_ofField hle]
  rfl

end Operand

namespace Instruction

theorem size_basic (op : BasicOp) (a b : Operand) :
    (basic op a b).size = 1 + (a.needsWord.toNat + b.needsWord.toNat) := by
  cases ha : a.needsWord <;> cases hb : b.needsWord <;> simp [size, operands, ha, hb]

theorem size_nonBasic (op : NonBasicOp) (a : Operand) : (nonBasic op a).size = 1 + a.needsWord.toNat := by
  cases ha : a.needsWord <;> simp [size, operands, ha]

end Instruction

namespace Code

variable {code : Code}

theorem need_of_isBasic (h : code.isBasic = true) :
    code.need = Operand.fieldNeed code.lowField + Operand.fieldNeed code.highField := by
  cases hlow : Operand.fieldNeedsWord code.lowField <;> cases hhigh : Operand.fieldNeedsWord code.highField <;>
    simp [need, fields, h, Operand.fieldNeed, hlow, hhigh]

theorem need_of_jsr (hbasic : ¬ code.isBasic = true) (h : code.nonBasicOp = NonBasicOp.jsr) :
    code.need = Operand.fieldNeed code.highField := by
  cases hhigh : Operand.fieldNeedsWord code.highField <;>
    simp [need, fields, hbasic, h, Operand.fieldNeed, hhigh]

theorem need_of_other (hbasic : ¬ code.isBasic = true) (h : code.nonBasicOp ≠ NonBasicOp.jsr) : code.need = 0 := by
  simp [need, fields, hbasic, h]

end Code

namespace Instruction

/-- The first word of a sequence tells how many words have to follow it. Without them nothing is decoded;
with them an instruction of that size is, or the first word is skipped if it is none of the machine. -/
theorem decode_cons_cases {code : Code} {word : UInt16} (hcode : code = ⟨word, []⟩) (tail : List UInt16) :
    (tail.length < code.need ∧ decode (word :: tail) = .truncated) ∨
    (code.need ≤ tail.length ∧ code.fields ≠ [] ∧ ∃ inst : Instruction, inst.size = 1 + code.need ∧
      decode (word :: tail) = .instruction inst (tail.drop code.need)) ∨
    (code.need = 0 ∧ code.fields = [] ∧ decode (word :: tail) = .skipped tail) := by
  have hlow := code.lowField_le
  have hhigh := code.highField_le
  simp only [decode]
  rw [← hcode]
  split_ifs with hbasic hjsr
  · rw [Code.need_of_isBasic hbasic]
    cases ha : Operand.decode code.lowField tail with
    | none =>
      have hshort := Operand.decode_eq_none_iff.1 ha
      exact .inl ⟨by omega, rfl⟩
    | some readA =>
      obtain ⟨a, restA⟩ := readA
      obtain ⟨hneedA, rfl, -⟩ := Operand.decode_eq_some ha
      cases hb : Operand.decode code.highField (tail.drop (Operand.fieldNeed code.lowField)) with
      | none =>
        have hshort := Operand.decode_eq_none_iff.1 hb
        rw [List.length_drop] at hshort
        refine .inl ⟨by omega, ?_⟩
        simp only [hb]
      | some readB =>
        obtain ⟨b, restB⟩ := readB
        obtain ⟨hneedB, rfl, -⟩ := Operand.decode_eq_some hb
        rw [List.length_drop] at hneedB
        refine .inr (.inl ⟨by omega, by simp [Code.fields, hbasic], .basic code.basicOp a b, ?_, ?_⟩)
        · rw [size_basic, Operand.toNat_needsWord_of_decode hlow ha, Operand.toNat_needsWord_of_decode hhigh hb]
        · simp only [hb, List.drop_drop]
  · rw [Code.need_of_jsr hbasic hjsr]
    cases ha : Operand.decode code.highField tail with
    | none => exact .inl ⟨Operand.decode_eq_none_iff.1 ha, rfl⟩
    | some readA =>
      obtain ⟨a, restA⟩ := readA
      obtain ⟨hneed, rfl, -⟩ := Operand.decode_eq_some ha
      refine .inr (.inl ⟨hneed, by simp [Code.fields, hbasic, hjsr], .nonBasic NonBasicOp.jsr a, ?_, rfl⟩)
      rw [size_nonBasic, Operand.toNat_needsWord_of_decode hhigh ha]
  · exact .inr (.inr ⟨Code.need_of_other hbasic hjsr, by simp [Code.fields, hbasic, hjsr], rfl⟩)

def andThen (read : Except Misuse OperandReading) (next : Operand → Int → Except Misuse InstructionReading) :
    Except Misuse InstructionReading :=
  match read with
  | .error e => .error e
  | .ok ⟨_, position, true⟩ => .ok ⟨none, position, true⟩
  | .ok ⟨op, position, false⟩ => next op position

/-- Decodes at a position operand by operand, each read where the one before it ended. -/
def decodeByOperands (words : List UInt16) (position : Int) : Except Misuse InstructionReading :=
  if position < 0 then .error (.negativePosition position)
  else match words[position.toNat]? with
    | none => .ok ⟨none, position, true⟩
    | some word =>
      let code : Code := ⟨word, []⟩
      if code.isBasic then
        andThen (Operand.decodeAt code.lowField words (position + 1)) fun a position =>
          andThen (Operand.decodeAt code.highField words position) fun b position =>
            .ok ⟨some (.basic code.basicOp a b), position, false⟩
      else if code.nonBasicOp = NonBasicOp.jsr then
        andThen (Operand.decodeAt code.highField words (position + 1)) fun a position =>
          .ok ⟨some (.nonBasic NonBasicOp.jsr a), position, false⟩
      else .ok ⟨none, position + 1, false⟩

theorem andThen_of_none {field : UInt8} (hle : field ≤ Operand.fieldMask) {words : List UInt16} {position : Nat}
    (h : Operand.decode field (words.drop position) = none)
    (next : Operand → Int → Except Misuse InstructionReading) :
    andThen (Operand.decodeAt field words position) next = .ok ⟨none, position, true⟩ := by
  rw [Operand.decodeAt_natCast hle, h]
  rfl

theorem andThen_of_some {field : UInt8} (hle : field ≤ Operand.fieldMask) {words rest : List UInt16}
    {position : Nat} {op : Operand} (h : Operand.decode field (words.drop position) = some (op, rest))
    (next : Operand → Int → Except Misuse InstructionReading) :
    andThen (Operand.decodeAt field words position) next =
      next op (position + Operand.fieldNeed field : Nat) := by
  rw [Operand.decodeAt_natCast hle, h]
  rfl

theorem decodeAt_natCast (words : List UInt16) (position : Nat) :
    decodeAt words position =
      match decode (words.drop position) with
      | .instruction inst _ => .ok ⟨some inst, (position + inst.size : Nat), false⟩
      | .skipped _ => .ok ⟨none, (position + 1 : Nat), false⟩
      | .truncated => .ok ⟨none, (max position words.length : Nat), true⟩ := by
  have hpositive : ¬ (position : Int) < 0 := Int.not_lt.2 (Int.natCast_nonneg position)
  have hmax : position + (words.drop position).length = max position words.length := by
    rw [List.length_drop]
    omega
  unfold decodeAt
  rw [if_neg hpositive, Int.toNat_natCast, ← hmax]
  dsimp only
  cases decode (words.drop position) <;> rfl

theorem drop_of_getElem? {words : List UInt16} {position : Nat} {word : UInt16}
    (h : words[position]? = some word) : words.drop position = word :: words.drop (position + 1) := by
  obtain ⟨hlt, rfl⟩ := List.getElem?_eq_some_iff.1 h
  exact List.drop_eq_getElem_cons hlt

/-- The positions at which the operands are read add up to the size of the instruction. -/
theorem decodeAt_eq_decodeByOperands (words : List UInt16) (position : Int) :
    decodeAt words position = decodeByOperands words position := by
  by_cases hnegative : position < 0
  · unfold decodeAt decodeByOperands
    rw [if_pos hnegative, if_pos hnegative]
  · obtain ⟨position, rfl⟩ := Int.eq_ofNat_of_zero_le (Int.not_lt.1 hnegative)
    rw [decodeAt_natCast, decodeByOperands, if_neg hnegative, Int.toNat_natCast]
    cases hword : words[position]? with
    | none =>
      have hlength := List.getElem?_eq_none_iff.1 hword
      rw [List.drop_of_length_le hlength, Nat.max_eq_left hlength]
      rfl
    | some word =>
      obtain ⟨code, hcode⟩ : ∃ code : Code, code = ⟨word, []⟩ := ⟨_, rfl⟩
      have hlow := code.lowField_le
      have hhigh := code.highField_le
      have hlength : position + 1 ≤ words.length := (List.getElem?_eq_some_iff.1 hword).1
      have hnext : (position : Int) + 1 = (position + 1 : Nat) := rfl
      rw [drop_of_getElem? hword, hnext]
      simp only [decode]
      rw [← hcode]
      split_ifs with hbasic hjsr
      · cases ha : Operand.decode code.lowField (words.drop (position + 1)) with
        | none =>
          -- The words end where the literal is wanted, so both ways stop at the same place.
          rw [andThen_of_none hlow ha, Nat.max_eq_right (by omega), Operand.length_eq_of_decode ha hlength]
        | some readA =>
          obtain ⟨a, restA⟩ := readA
          obtain ⟨hneed, rfl, -⟩ := Operand.decode_eq_some ha
          rw [List.length_drop] at hneed
          rw [andThen_of_some hlow ha, List.drop_drop]
          cases hb : Operand.decode code.highField (words.drop (position + 1 + Operand.fieldNeed code.lowField)) with
          | none =>
            simp only [hb]
            rw [andThen_of_none hhigh hb, Nat.max_eq_right (by omega), Operand.length_eq_of_decode hb (by omega)]
          | some readB =>
            obtain ⟨b, restB⟩ := readB
            simp only [hb]
            rw [andThen_of_some hhigh hb, size_basic, Operand.toNat_needsWord_of_decode hlow ha,
              Operand.toNat_needsWord_of_decode hhigh hb, ← Nat.add_assoc, ← Nat.add_assoc]
      · cases ha : Operand.decode code.highField (words.drop (position + 1)) with
        | none =>
          rw [andThen_of_none hhigh ha, Nat.max_eq_right (by omega), Operand.length_eq_of_decode ha hlength]
        | some readA =>
          obtain ⟨a, restA⟩ := readA
          rw [andThen_of_some hhigh ha]
          dsimp only
          rw [size_nonBasic, Operand.toNat_needsWord_of_decode hhigh ha, ← Nat.add_assoc]
      · rfl

def needAt (words : List UInt16) (position : Nat) : Nat :=
  match words[position]? with
  | some word => (⟨word, []⟩ : Code).need
  | none => 0

def startsAt (words : List UInt16) (position : Nat) : Bool :=
  match words[position]? with
  | some word => (⟨word, []⟩ : Code).isBasic || (⟨word, []⟩ : Code).nonBasicOp = NonBasicOp.jsr
  | none => false

theorem startsAt_eq {words : List UInt16} {position : Nat} {word : UInt16} (h : words[position]? = some word) :
    startsAt words position = !(⟨word, []⟩ : Code).fields.isEmpty := by
  rw [startsAt, h, Code.fields]
  split_ifs <;> simp_all

theorem decode_drop_cases {words : List UInt16} {position : Nat} (h : position < words.length) :
    (words.length < position + 1 + needAt words position ∧ decode (words.drop position) = .truncated) ∨
    (position + 1 + needAt words position ≤ words.length ∧ startsAt words position = true ∧
      ∃ inst rest, inst.size = 1 + needAt words position ∧
        decode (words.drop position) = .instruction inst rest) ∨
    (startsAt words position = false ∧ needAt words position = 0 ∧
      decode (words.drop position) = .skipped (words.drop (position + 1))) := by
  have hword := List.getElem?_eq_getElem h
  obtain ⟨code, hcode⟩ : ∃ code : Code, code = ⟨words[position], []⟩ := ⟨_, rfl⟩
  have hneed : needAt words position = code.need := by rw [needAt, hword, hcode]
  have hcases := decode_cons_cases hcode (words.drop (position + 1))
  rw [← drop_of_getElem? hword, List.length_drop, ← hneed] at hcases
  rw [startsAt_eq hword, ← hcode]
  rcases hcases with ⟨hshort, hdecode⟩ | ⟨hroom, hfields, inst, hsize, hdecode⟩ | ⟨hnone, hfields, hdecode⟩
  · exact .inl ⟨by omega, hdecode⟩
  · exact .inr (.inl ⟨by omega, by simpa using hfields, inst, _, hsize, hdecode⟩)
  · exact .inr (.inr ⟨by simpa using hfields, hnone, hdecode⟩)

theorem decodeAt_of_short {words : List UInt16} {position : Nat}
    (h : words.length < position + 1 + needAt words position) :
    decodeAt words position = .ok ⟨none, (max position words.length : Nat), true⟩ := by
  have htruncated : decode (words.drop position) = .truncated := by
    by_cases hlength : position < words.length
    · rcases decode_drop_cases hlength with ⟨-, hdecode⟩ | ⟨hroom, -⟩ | ⟨-, hneed, -⟩
      · exact hdecode
      · omega
      · omega
    · rw [List.drop_of_length_le (Nat.not_lt.1 hlength), decode]
  rw [decodeAt_natCast, htruncated]

theorem exists_decodeAt_of_room {words : List UInt16} {position : Nat}
    (h : position + 1 + needAt words position ≤ words.length) :
    ∃ found : Option Instruction,
      decodeAt words position = .ok ⟨found, (position + 1 + needAt words position : Nat), false⟩ ∧
      found.isSome = startsAt words position ∧
      ∀ inst, found = some inst → inst.size = 1 + needAt words position ∧
        ∃ code, inst.encode = .ok code ∧ code.words = (words.drop position).take inst.size := by
  have hlength : position < words.length := by omega
  rw [decodeAt_natCast]
  rcases decode_drop_cases hlength with
    ⟨hshort, -⟩ | ⟨-, hstarts, inst, rest, hsize, hdecode⟩ | ⟨hstarts, hneed, hdecode⟩
  · omega
  · obtain ⟨-, code, hencode, hwords⟩ := encode_of_decode hdecode
    refine ⟨some inst, ?_, hstarts.symm, ?_⟩
    · rw [hdecode, Nat.add_assoc, ← hsize]
    · rintro _ ⟨⟩
      refine ⟨hsize, code, hencode, ?_⟩
      rw [hwords, ← length_of_encode hencode, List.take_left]
  · refine ⟨none, ?_, hstarts.symm, ?_⟩
    · rw [hdecode, hneed]
    · intro inst hinst
      contradiction

/-- What is decoded at a position. If fewer words are left than the word there asks for, nothing is, and the
reading ends behind the last word. Otherwise it ends behind the literals, and there is an instruction if and
only if the word starts one; its encoding is the words passed over. No operand field on the way is too wide. -/
theorem decodeAt_exact (words : List UInt16) (position : Nat) :
    (words.length ≤ position ∨ words.length < position + 1 + needAt words position →
      decodeAt words position = .ok ⟨none, (max position words.length : Nat), true⟩) ∧
    (position + 1 + needAt words position ≤ words.length → ∃ found : Option Instruction,
      decodeAt words position = .ok ⟨found, (position + 1 + needAt words position : Nat), false⟩ ∧
      found.isSome = startsAt words position ∧
      ∀ inst, found = some inst → inst.size = 1 + needAt words position ∧
        ∃ code, inst.encode = .ok code ∧ code.words = (words.drop position).take inst.size) ∧
    decodeAt words position = decodeByOperands words position ∧
    ∀ field, decodeByOperands words position ≠ .error (.fieldTooWide field) := by
  refine ⟨?_, exists_decodeAt_of_room, decodeAt_eq_decodeByOperands words position, ?_⟩
  · intro h
    exact decodeAt_of_short (by omega)
  · intro field herror
    rw [← decodeAt_eq_decodeByOperands, decodeAt_natCast] at herror
    split at herror <;> contradiction

/-- The instructions of the machine are those that survive encoding and decoding, wherever they stand. -/
theorem plain_iff_decodeAt_words (inst : Instruction) :
    inst.Plain ↔ ∃ code, inst.encode = .ok code ∧ ∀ before after : List UInt16,
      decodeAt (before ++ code.words ++ after) before.length =
        .ok ⟨some inst, before.length + inst.size, false⟩ := by
  constructor
  · intro hplain
    obtain ⟨code, hencode⟩ := exists_encode_of_plain hplain
    refine ⟨code, hencode, fun before after => ?_⟩
    have hdecode := decode_of_encode hplain hencode after
    rw [decodeAt_natCast, List.append_assoc, List.drop_left, hdecode]
    rfl
  · rintro ⟨code, -, hdecodeAt⟩
    have hfirst := hdecodeAt [] []
    rw [List.append_nil, List.nil_append, decodeAt_natCast, List.length_nil, List.drop_zero] at hfirst
    cases hdecode : decode code.words with
    | instruction other rest =>
      rw [hdecode] at hfirst
      obtain ⟨rfl, -⟩ : other = inst ∧ _ := by simpa using hfirst
      exact (encode_of_decode hdecode).1
    | skipped rest =>
      rw [hdecode] at hfirst
      simp at hfirst
    | truncated =>
      rw [hdecode] at hfirst
      simp at hfirst

end Instruction
end Asm16
