import Asm16.Text.Digits

/-! What can go wrong, and how it is worded. A fault is a cause; an error is a fault with the
places it was met at, the outermost first. -/

namespace Asm16

inductive Fault where
  | wordsTruncated
  | labelDuplicated
  | commaMissing
  | operandMissing
  | argumentsExcessive
  | programTooLarge
  | lineTooLong
  | labelMissing (name : Text)
  | labelInvalid (name : Text)
  | labelReserved (name : Text)
  | notInstruction (word : Text)
  | notNumber (word : Text)
  | notValue (text : Text)
  | notExpression (text : Text)
  | fieldOutOfRange (field : UInt8)
  | unreadable (reason : Text)
  deriving DecidableEq, Repr

namespace Fault

def message : Fault → Text
  | wordsTruncated => ascii "word stream truncated"
  | labelDuplicated => ascii "label duplicated"
  | commaMissing => ascii "comma missing between operands"
  | operandMissing => ascii "operand missing"
  | argumentsExcessive => ascii "excessive arguments"
  | programTooLarge => ascii "program exceeds memory"
  | lineTooLong => ascii "bufio.Scanner: token too long"
  | labelMissing name => ascii "label " ++ name ++ ascii " missing"
  | labelInvalid name => ascii "'" ++ name ++ ascii "' is not a valid label"
  | labelReserved name => ascii "label " ++ name ++ ascii " is a register name"
  | notInstruction word => ascii "'" ++ word ++ ascii "' is not an instruction"
  | notNumber word => ascii "'" ++ word ++ ascii "' is not a number"
  | notValue text => ascii "'" ++ text ++ ascii "' is not a value or register"
  | notExpression text => ascii "$(" ++ text ++ ascii ") is not a valid expression"
  | fieldOutOfRange field =>
    ascii "operand field 0x" ++ Text.hexPadded 2 field.toNat ++ ascii " out of range"
  | unreadable reason => reason

end Fault

/-- Where an error was met: a numbered source line, or a word address. -/
inductive Place where
  | line (number : Int) (text : Text)
  | address (number : Int)
  deriving DecidableEq, Repr

def Place.message : Place → Text
  | line number text => ascii "line " ++ Text.grouped number ++ ascii " '" ++ text ++ ascii "' "
  | address number => ascii "address 0x" ++ Text.hexSigned 4 number ++ ascii " "

structure Error where
  places : List Place
  cause : Option Fault
  deriving DecidableEq, Repr, Inhabited

def Error.message (e : Error) : Text :=
  e.places.flatMap Place.message ++ (e.cause.map Fault.message).getD (ascii "<nil>")

structure SyntaxError where
  line : Nat
  text : Text
  cause : Fault
  deriving DecidableEq, Repr

def SyntaxError.toError (e : SyntaxError) : Error := ⟨[.line e.line e.text], some e.cause⟩

structure DecodeError where
  address : Nat
  cause : Fault
  deriving DecidableEq, Repr

def DecodeError.toError (e : DecodeError) : Error := ⟨[.address e.address], some e.cause⟩

end Asm16
