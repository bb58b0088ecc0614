import Asm16.Machine.Instruction

/-! Operands and instructions as records. A record has a field for everything that an operand or an instruction of
some kind uses, and each field can hold any number or text. What the fields say together decides which of them count. -/

namespace Asm16

structure OperandRecord where
  /-- The addressing mode; there are eight, and the other numbers stand for none. -/
  kind : Int := 0
  register : UInt8 := 0
  special : UInt8 := 0
  value : UInt16 := 0
  label : Text := []
  deriving DecidableEq, Repr

namespace OperandRecord

def labelled (r : OperandRecord) : Value := ⟨r.value, if r.label.isEmpty then none else some r.label⟩

def operand (r : OperandRecord) : Operand :=
  match r.kind with
  | 0 => .register ⟨r.register⟩
  | 1 => .registerIndirect ⟨r.register⟩
  | 2 => .registerOffset ⟨r.register⟩ r.labelled
  | 3 => .special ⟨r.special⟩
  | 4 => .memory r.labelled
  | 5 => .nextWord r.labelled
  | 6 => .short r.labelled
  | 7 => .pending r.labelled
  | kind => .unknown kind ⟨r.register⟩ ⟨r.special⟩ r.labelled

end OperandRecord

structure InstructionRecord where
  basic : UInt8 := 0
  nonBasic : UInt8 := 0
  a : OperandRecord := {}
  b : OperandRecord := {}
  deriving DecidableEq, Repr

/-- The instruction of a record. Without a basic operation it is a non-basic one, and `b` does not count. -/
def InstructionRecord.instruction (r : InstructionRecord) : Instruction :=
  if r.basic = 0 then .nonBasic ⟨r.nonBasic⟩ r.a.operand else .basic ⟨r.basic⟩ r.a.operand r.b.operand

end Asm16
