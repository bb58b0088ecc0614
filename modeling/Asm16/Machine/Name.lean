import Asm16.Text.Upper

/-! The names of the DCPU-16: eight registers, six special operands, fifteen basic instructions of
two operands and one non-basic instruction of one operand. The numbers are bytes, so that any
number has some text; names are recognised in either case. -/

namespace Asm16

structure Register where
  index : UInt8
  deriving DecidableEq, Repr

namespace Register

def names : List Text := [ascii "A", ascii "B", ascii "C", ascii "X", ascii "Y", ascii "Z", ascii "I", ascii "J"]

def text (r : Register) : Text :=
  match names[r.index.toNat]? with
  | some name => name
  | none => ascii "Register(" ++ Text.decimal r.index.toNat ++ ascii ")"

def ofName? (word : Text) : Option Register :=
  (names.idxOf? (Text.upper word)).map fun n => ⟨UInt8.ofNat n⟩

end Register

/-- A fixed operand; its code is the operand field that encodes it. -/
structure Special where
  code : UInt8
  deriving DecidableEq, Repr

namespace Special

def first : UInt8 := 0x18
def last : UInt8 := 0x1d

def names : List Text := [ascii "POP", ascii "PEEK", ascii "PUSH", ascii "SP", ascii "PC", ascii "O"]

def isNamed (s : Special) : Bool := first ≤ s.code && s.code ≤ last

def text (s : Special) : Text :=
  match (if s.isNamed then names[(s.code - first).toNat]? else none) with
  | some name => name
  | none => ascii "Special(0x" ++ Text.hexPadded 2 s.code.toNat ++ ascii ")"

def ofName? (word : Text) : Option Special :=
  (names.idxOf? (Text.upper word)).map fun n => ⟨first + UInt8.ofNat n⟩

end Special

/-- An instruction of two operands; its code is the low nibble of the instruction word. -/
structure BasicOp where
  code : UInt8
  deriving DecidableEq, Repr

namespace BasicOp

/-- The names in order of their codes, which start at one. -/
def names : List Text :=
  [ascii "SET", ascii "ADD", ascii "SUB", ascii "MUL", ascii "DIV", ascii "MOD", ascii "SHL", ascii "SHR",
    ascii "AND", ascii "BOR", ascii "XOR", ascii "IFE", ascii "IFN", ascii "IFG", ascii "IFB"]

def text (op : BasicOp) : Text :=
  match (if op.code = 0 then none else names[op.code.toNat - 1]?) with
  | some name => name
  | none => ascii "BasicOp(" ++ Text.decimal op.code.toNat ++ ascii ")"

def ofName? (word : Text) : Option BasicOp :=
  (names.idxOf? (Text.upper word)).map fun n => ⟨UInt8.ofNat (n + 1)⟩

end BasicOp

structure NonBasicOp where
  code : UInt8
  deriving DecidableEq, Repr

namespace NonBasicOp

def jsr : NonBasicOp := ⟨1⟩

def text (op : NonBasicOp) : Text :=
  if op = jsr then ascii "JSR"
  else ascii "NonBasicOp(0x" ++ Text.hexPadded 2 op.code.toNat ++ ascii ")"

def ofName? (word : Text) : Option NonBasicOp :=
  if Text.upper word = ascii "JSR" then some jsr else none

end NonBasicOp

def isReserved (word : Text) : Bool :=
  (Register.ofName? word).isSome || (Special.ofName? word).isSome

end Asm16
