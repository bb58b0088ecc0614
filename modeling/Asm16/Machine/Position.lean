import Asm16.Machine.Instruction

/-! Decoding at a position of a word sequence. Positions are integers; reading at a negative one,
or a field of more than six bits, is a misuse and not a fault of the words. -/

namespace Asm16

inductive Misuse where
  | fieldTooWide (field : UInt8)
  | negativePosition (position : Int)
  deriving DecidableEq, Repr

namespace Misuse

def fault? : Misuse → Option Fault
  | fieldTooWide field => some (.fieldOutOfRange field)
  | negativePosition _ => none

def message : Misuse → Text
  | fieldTooWide field => (Fault.fieldOutOfRange field).message
  | negativePosition position =>
    ascii "runtime error: index out of range [" ++ Text.signed Text.decimal position ++ ascii "]"

end Misuse

/-- An operand read at a position. If the words had run out, `truncated` is set, the literal is
zero and `next` is where it was wanted. -/
structure OperandReading where
  operand : Operand
  next : Int
  truncated : Bool
  deriving DecidableEq, Repr

def Operand.decodeAt (field : UInt8) (words : List UInt16) (position : Int) :
    Except Misuse OperandReading :=
  if field > fieldMask then .error (.fieldTooWide field)
  else if fieldNeedsWord field = false then .ok ⟨ofField field 0, position, false⟩
  else if position < 0 then .error (.negativePosition position)
  else match words[position.toNat]? with
    | some literal => .ok ⟨ofField field literal, position + 1, false⟩
    | none => .ok ⟨ofField field 0, position, true⟩

/-- What was found at a position: an instruction, or nothing for a skipped word or when the words
had run out, which `truncated` tells apart. `next` is the position after what was read. -/
structure InstructionReading where
  instruction : Option Instruction
  next : Int
  truncated : Bool
  deriving DecidableEq, Repr

def Instruction.decodeAt (words : List UInt16) (position : Int) : Except Misuse InstructionReading :=
  if position < 0 then .error (.negativePosition position)
  else
    let here := words.drop position.toNat
    match decode here with
    | .instruction inst _ => .ok ⟨some inst, position + inst.size, false⟩
    | .skipped _ => .ok ⟨none, position + 1, false⟩
    | .truncated => .ok ⟨none, position + here.length, true⟩

end Asm16
