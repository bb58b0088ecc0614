import Asm16.Machine.Position
import Asm16.Proofs.HexDump
import Asm16.Proofs.Record

/-! Fields out of range. Every number of six bits is the field of some operand, so only a larger one can be called out
of range. Decoding refuses a field by its own number and keeps to this. Encoding need not: a special operand is
reported by its code, which can be the field of another operand, and of a literal that is too large for its field only
the low byte is reported. -/

namespace Asm16

namespace Operand

def IsField (field : UInt8) : Prop := ∃ (op : Operand) (literals : List UInt16), op.encode = .ok (field, literals)

theorem isField_iff {field : UInt8} : IsField field ↔ field ≤ fieldMask := by
  constructor
  · rintro ⟨op, literals, h⟩
    exact field_le_of_encode h
  · intro hle
    exact ⟨ofField field 0, _, encode_ofField hle 0⟩

end Operand

theorem Fault.eq_of_message_fieldOutOfRange {m n : UInt8}
    (h : (fieldOutOfRange m).message = (fieldOutOfRange n).message) : m = n := by
  have hdigits : Text.hexPadded 2 m.toNat = Text.hexPadded 2 n.toNat :=
    List.append_cancel_left (List.append_cancel_right h)
  -- The digits are read back as the number.
  have hread := congrArg (Text.read? 16) hdigits
  rw [Text.read?_hexPadded, Text.read?_hexPadded] at hread
  exact UInt8.toNat_inj.1 (Option.some.inj hread)

namespace OperandRecord

theorem encode_operand_eq_error_iff (r : OperandRecord) (fault : Fault) :
    r.operand.encode = .error fault ↔ r.Faulty ∧ fault = r.fault := by
  by_cases hfaulty : r.Faulty
  · rw [encode_operand_of_faulty hfaulty, Except.error.injEq]
    exact ⟨fun h => ⟨hfaulty, h.symm⟩, fun h => h.2.symm⟩
  · obtain ⟨field, literals, hok⟩ := exists_encode_operand hfaulty
    simp [hok, hfaulty]

theorem toNat_short_reported (value : UInt16) : (0x20 + value.toUInt8).toNat = (0x20 + value.toNat) % 256 := by
  rw [UInt8.toNat_add, UInt16.toNat_toUInt8]
  change (32 + value.toNat % 256) % 256 = _
  omega

theorem encode_operand_eq_fieldOutOfRange_iff (r : OperandRecord) (n : UInt8) :
    r.operand.encode = .error (.fieldOutOfRange n) ↔
      (r.kind = 3 ∧ ¬ (0x18 ≤ r.special ∧ r.special ≤ 0x1d) ∧ n = r.special) ∨
      (r.kind = 6 ∧ 0x1f < r.value ∧ n.toNat = (0x20 + r.value.toNat) % 256) := by
  rw [encode_operand_eq_error_iff, ← toNat_short_reported, UInt8.toNat_inj]
  unfold Faulty fault
  -- Only two addressing modes have numbers that a field may be too small for.
  by_cases hspecial : r.kind = 3
  · simp [hspecial]
  · by_cases hshort : r.kind = 6
    · simp [hshort]
    · split_ifs <;> simp [hspecial, hshort]

/-- An operand that has no field and is reported by that of another: a special code of six bits without a name, or a
literal that is too large, but near a multiple of 256. -/
def Misreported (r : OperandRecord) : Prop :=
  (r.kind = 3 ∧ ¬ (0x18 ≤ r.special ∧ r.special ≤ 0x1d) ∧ r.special ≤ 0x3f) ∨
    (r.kind = 6 ∧ 0x1f < r.value ∧ (r.value.toNat % 256 ≤ 0x1f ∨ 0xe0 ≤ r.value.toNat % 256))

instance (r : OperandRecord) : Decidable r.Misreported :=
  inferInstanceAs (Decidable ((_ ∧ ¬ (_ ∧ _) ∧ _) ∨ (_ ∧ _ ∧ (_ ∨ _))))

theorem isField_iff_misreported {r : OperandRecord} {n : UInt8}
    (h : r.operand.encode = .error (.fieldOutOfRange n)) : Operand.IsField n ↔ r.Misreported := by
  rw [Operand.isField_iff]
  unfold Misreported
  rcases (encode_operand_eq_fieldOutOfRange_iff r n).1 h with ⟨hkind, hrange, rfl⟩ | ⟨hkind, hlarge, hn⟩
  · constructor
    · intro hle
      exact .inl ⟨hkind, hrange, hle⟩
    · rintro (⟨-, -, hle⟩ | ⟨hshort, -⟩)
      · exact hle
      · omega
  · have hle : n ≤ Operand.fieldMask ↔ n.toNat ≤ 63 := UInt8.le_iff_toNat_le
    -- The low byte gives a field if it is small, or so large that the sum passes 256.
    have hlow : (0x20 + r.value.toNat) % 256 ≤ 63 ↔
        r.value.toNat % 256 ≤ 0x1f ∨ 0xe0 ≤ r.value.toNat % 256 := by
      omega
    rw [hle, hn, hlow]
    simp [hkind, hlarge]

theorem fault_eq_of_message {r : OperandRecord} {n : UInt8}
    (h : r.fault.message = (Fault.fieldOutOfRange n).message) : r.fault = .fieldOutOfRange n := by
  unfold fault at h ⊢
  split_ifs at h ⊢
  · have hfirst : some 'l'.toUInt8 = some 'o'.toUInt8 := congrArg List.head? h
    exact absurd hfirst (by decide)
  · rw [Fault.eq_of_message_fieldOutOfRange h]
  · rw [Fault.eq_of_message_fieldOutOfRange h]
  · have hfirst : some '\''.toUInt8 = some 'o'.toUInt8 := congrArg List.head? h
    exact absurd hfirst (by decide)

theorem isField_iff_misreported_of_message {r : OperandRecord} {fault : Fault} {n : UInt8}
    (h : r.operand.encode = .error fault) (hmessage : fault.message = (Fault.fieldOutOfRange n).message) :
    Operand.IsField n ↔ r.Misreported := by
  obtain ⟨-, rfl⟩ := (encode_operand_eq_error_iff r fault).1 h
  rw [fault_eq_of_message hmessage] at h
  exact isField_iff_misreported h

end OperandRecord

namespace Operand

variable {field : UInt8} {words : List UInt16} {position : Int} {misuse : Misuse}

theorem decodeAt_eq_error_iff :
    decodeAt field words position = .error misuse ↔
      (fieldMask < field ∧ misuse = .fieldTooWide field) ∨
      (field ≤ fieldMask ∧ fieldNeedsWord field = true ∧ position < 0 ∧
        misuse = .negativePosition position) := by
  unfold decodeAt
  -- A field that is too wide is refused first, at a negative position too.
  by_cases hwide : field > fieldMask
  · rw [if_pos hwide, Except.error.injEq, eq_comm]
    constructor
    · intro h
      exact .inl ⟨hwide, h⟩
    · rintro (⟨-, h⟩ | ⟨hle, -⟩)
      · exact h
      · exact absurd hle (UInt8.not_le.2 hwide)
  · have hle : field ≤ fieldMask := UInt8.not_lt.1 hwide
    cases hneeds : fieldNeedsWord field with
    | false => simp [hwide]
    | true =>
      by_cases hnegative : position < 0
      · simp [hwide, hle, hnegative, eq_comm]
      · cases hword : words[position.toNat]? <;> simp [hwide, hnegative]

theorem exists_decodeAt_fieldOutOfRange_iff {n : UInt8} :
    (∃ misuse, decodeAt field words position = .error misuse ∧ misuse.fault? = some (.fieldOutOfRange n)) ↔
      fieldMask < n ∧ n = field := by
  constructor
  · rintro ⟨misuse, h, hfault⟩
    rcases decodeAt_eq_error_iff.1 h with ⟨hwide, rfl⟩ | ⟨-, -, -, rfl⟩
    · obtain rfl : field = n := by simpa [Misuse.fault?] using hfault
      exact ⟨hwide, rfl⟩
    · simp [Misuse.fault?] at hfault
  · rintro ⟨hwide, rfl⟩
    exact ⟨.fieldTooWide n, decodeAt_eq_error_iff.2 (.inl ⟨hwide, rfl⟩), rfl⟩

theorem not_isField_of_message {n : UInt8} (h : decodeAt field words position = .error misuse)
    (hmessage : misuse.message = (Fault.fieldOutOfRange n).message) : ¬ IsField n := by
  rcases decodeAt_eq_error_iff.1 h with ⟨hwide, rfl⟩ | ⟨-, -, -, rfl⟩
  · obtain rfl : field = n := Fault.eq_of_message_fieldOutOfRange hmessage
    rw [isField_iff]
    exact UInt8.not_le.2 hwide
  · have hfirst : some 'r'.toUInt8 = some 'o'.toUInt8 := congrArg List.head? hmessage
    exact absurd hfirst (by decide)

/-- What is reported as a field out of range: by encoding, the code of a special operand without a name, and the low
byte of the number that a short literal would need; by decoding, a field of more than six bits. The number that is
reported has more than six bits, and no operand has the field that the message names, except for the misreported
operands, for which both fail. -/
theorem fieldOutOfRange_exact (r : OperandRecord) (field : UInt8) (words : List UInt16) (position : Int) (n : UInt8) :
    (r.operand.encode = .error (.fieldOutOfRange n) ↔
      (r.kind = 3 ∧ ¬ (0x18 ≤ r.special ∧ r.special ≤ 0x1d) ∧ n = r.special) ∨
      (r.kind = 6 ∧ 0x1f < r.value ∧ n.toNat = (0x20 + r.value.toNat) % 256)) ∧
    (r.operand.encode = .error (.fieldOutOfRange n) → (0x3f < n ↔ ¬ r.Misreported)) ∧
    (∀ fault, r.operand.encode = .error fault → fault.message = (Fault.fieldOutOfRange n).message →
      (IsField n ↔ r.Misreported)) ∧
    ((∃ misuse, decodeAt field words position = .error misuse ∧ misuse.fault? = some (.fieldOutOfRange n)) ↔
      0x3f < n ∧ n = field) ∧
    ∀ misuse, decodeAt field words position = .error misuse →
      misuse.message = (Fault.fieldOutOfRange n).message → ¬ IsField n := by
  refine ⟨OperandRecord.encode_operand_eq_fieldOutOfRange_iff r n, ?_, ?_, exists_decodeAt_fieldOutOfRange_iff, ?_⟩
  · intro h
    rw [← OperandRecord.isField_iff_misreported h, isField_iff]
    exact UInt8.not_le.symm
  · intro fault h hmessage
    exact OperandRecord.isField_iff_misreported_of_message h hmessage
  · intro misuse h hmessage
    exact not_isField_of_message h hmessage

def largeLiteral : OperandRecord := ⟨6, 0, 0, 0x1234, []⟩

theorem fieldOutOfRange_exact_largeLiteral :
    largeLiteral.operand.encode = .error (.fieldOutOfRange 0x54) ∧ (0x3f : UInt8) < 0x54 ∧ ¬ IsField 0x54 ∧
      ∃ misuse, decodeAt 0x54 [] (-1) = .error misuse ∧ misuse.fault? = some (.fieldOutOfRange 0x54) := by
  obtain ⟨hencode, hlarge, hmessage, hdecode, -⟩ := fieldOutOfRange_exact largeLiteral 0x54 [] (-1) 0x54
  have hreported : largeLiteral.operand.encode = .error (.fieldOutOfRange 0x54) :=
    hencode.2 (.inr ⟨rfl, by decide, by decide⟩)
  have hright : ¬ largeLiteral.Misreported := by decide
  have hwide : (0x3f : UInt8) < 0x54 := (hlarge hreported).2 hright
  exact ⟨hreported, hwide, fun hfield => hright ((hmessage _ hreported rfl).1 hfield), hdecode.2 ⟨hwide, rfl⟩⟩

/-- The short literal `0x100` is reported by the field of the literal `0`, and the special code 5 by that of a
register. -/
theorem encode_operand_misreported :
    (⟨6, 0, 0, 0x100, []⟩ : OperandRecord).operand.encode = .error (.fieldOutOfRange 0x20) ∧
      (short ⟨0, none⟩).encode = .ok (0x20, []) ∧ ¬ (0x3f : UInt8) < 0x20 ∧
    (⟨3, 0, 5, 0, []⟩ : OperandRecord).operand.encode = .error (.fieldOutOfRange 5) ∧
      (register ⟨5⟩).encode = .ok (5, []) ∧ ¬ (0x3f : UInt8) < 5 :=
  ⟨rfl, rfl, by decide, rfl, rfl, by decide⟩

end Operand
end Asm16
