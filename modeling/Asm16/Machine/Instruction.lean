import Asm16.Machine.Operand

/-! Instructions and the words they are encoded in. The low nibble of an instruction word selects a
basic instruction, with operand fields `a` in bits 4 to 9 and `b` in bits 10 to 15. A zero nibble
marks a non-basic instruction: bits 4 to 9 select it and bits 10 to 15 hold its one operand. -/

namespace Asm16

/-- An instruction word with the literal words that follow it. -/
structure Code where
  word : UInt16
  literals : List UInt16
  deriving DecidableEq, Repr

namespace Code

def words (code : Code) : List UInt16 := code.word :: code.literals

def basic (op : BasicOp) (a b : UInt8) (literals : List UInt16) : Code where
  word := ((b &&& Operand.fieldMask).toUInt16 <<< 10) ||| ((a &&& Operand.fieldMask).toUInt16 <<< 4)
    ||| (op.code &&& 0xf).toUInt16
  literals := literals

def nonBasic (op : NonBasicOp) (a : UInt8) (literals : List UInt16) : Code where
  word := ((a &&& Operand.fieldMask).toUInt16 <<< 10) ||| ((op.code &&& Operand.fieldMask).toUInt16 <<< 4)
  literals := literals

def basicOp (code : Code) : BasicOp := ⟨(code.word &&& 0xf).toUInt8⟩

def lowField (code : Code) : UInt8 := ((code.word >>> 4) &&& 0x3f).toUInt8

def highField (code : Code) : UInt8 := ((code.word >>> 10) &&& 0x3f).toUInt8

def nonBasicOp (code : Code) : NonBasicOp := ⟨code.lowField⟩

def isBasic (code : Code) : Bool := code.basicOp.code != 0

/-- The operand fields in the order of their literals. A non-basic word other than JSR has none. -/
def fields (code : Code) : List UInt8 :=
  if code.isBasic then [code.lowField, code.highField]
  else if code.nonBasicOp = NonBasicOp.jsr then [code.highField]
  else []

def need (code : Code) : Nat := code.fields.countP Operand.fieldNeedsWord

end Code

inductive Instruction where
  | basic (op : BasicOp) (a b : Operand)
  | nonBasic (op : NonBasicOp) (a : Operand)
  deriving DecidableEq, Repr

namespace Instruction

def operands : Instruction → List Operand
  | basic _ a b => [a, b]
  | nonBasic _ a => [a]

def size (inst : Instruction) : Nat := 1 + inst.operands.countP Operand.needsWord

def text : Instruction → Text
  | basic op a b => op.text ++ ascii " " ++ a.text ++ ascii ", " ++ b.text
  | nonBasic op a => op.text ++ ascii " " ++ a.text

/-- The code of an instruction. A fault of the first operand is reported before one of the
second. -/
def encode : Instruction → Except Fault Code
  | basic op a b =>
    match a.encode with
    | .error e => .error e
    | .ok (fieldA, literalsA) =>
      match b.encode with
      | .error e => .error e
      | .ok (fieldB, literalsB) => .ok (Code.basic op fieldA fieldB (literalsA ++ literalsB))
  | nonBasic op a =>
    match a.encode with
    | .error e => .error e
    | .ok (field, literals) => .ok (Code.nonBasic op field literals)

inductive Decoded where
  | instruction (inst : Instruction) (rest : List UInt16)
  /-- A single word that is no instruction of the machine. -/
  | skipped (rest : List UInt16)
  | truncated
  deriving DecidableEq, Repr

def decode : List UInt16 → Decoded
  | [] => .truncated
  | word :: rest =>
    let code : Code := ⟨word, []⟩
    if code.isBasic then
      match Operand.decode code.lowField rest with
      | none => .truncated
      | some (a, rest) =>
        match Operand.decode code.highField rest with
        | none => .truncated
        | some (b, rest) => .instruction (.basic code.basicOp a b) rest
    else if code.nonBasicOp = NonBasicOp.jsr then
      match Operand.decode code.highField rest with
      | none => .truncated
      | some (a, rest) => .instruction (.nonBasic NonBasicOp.jsr a) rest
    else .skipped rest

end Instruction
end Asm16
