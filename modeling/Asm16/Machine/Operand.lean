import Asm16.Fault
import Asm16.Machine.Name
import Asm16.Text.Quoted

/-! Operands. An operand is written into a field of six bits of the instruction word, and some are
followed by a literal word of their own. -/

namespace Asm16

/-- A word, and the label whose address it is, if it is one. -/
structure Value where
  word : UInt16
  label : Option Text := none
  deriving DecidableEq, Repr

def Value.text (v : Value) : Text :=
  match v.label with
  | some name => name
  | none => ascii "0x" ++ Text.hex v.word.toNat

inductive Operand where
  | register (reg : Register)
  | registerIndirect (reg : Register)
  | registerOffset (reg : Register) (offset : Value)
  | special (sp : Special)
  | memory (address : Value)
  | nextWord (value : Value)
  | short (value : Value)
  /-- A label whose address is not known yet; it will take a word that follows. -/
  | pending (value : Value)
  /-- An addressing mode that the machine does not have. -/
  | unknown (mode : Int) (reg : Register) (sp : Special) (value : Value)
  deriving DecidableEq, Repr

namespace Operand

def shortMax : UInt16 := 0x1f

def literal (value : Value) : Operand :=
  if value.word ≤ shortMax then short value else nextWord value

def needsWord : Operand → Bool
  | registerOffset _ _ => true
  | memory _ => true
  | nextWord _ => true
  | pending _ => true
  | _ => false

/-- The full description of an operand that has no notation. -/
def describe (mode : Int) (reg : Register) (sp : Special) (value : Value) : Text :=
  ascii "dcpu.Operand\x7bKind:" ++ Text.signed Text.decimal mode ++ ascii ", Register:0x" ++ Text.hex reg.index.toNat
    ++ ascii ", Special:0x" ++ Text.hex sp.code.toNat ++ ascii ", Value:0x" ++ Text.hex value.word.toNat
    ++ ascii ", Label:" ++ Text.quoted (value.label.getD []) ++ ascii "\x7d"

def text : Operand → Text
  | register reg => reg.text
  | registerIndirect reg => ascii "[" ++ reg.text ++ ascii "]"
  | registerOffset reg offset => ascii "[" ++ offset.text ++ ascii "+" ++ reg.text ++ ascii "]"
  | special sp => sp.text
  | memory address => ascii "[" ++ address.text ++ ascii "]"
  | nextWord value => value.text
  | short value => value.text
  | pending value => value.text
  | unknown mode reg sp value => describe mode reg sp value

def indirectField : UInt8 := 0x08
def offsetField : UInt8 := 0x10
def memoryField : UInt8 := 0x1e
def nextWordField : UInt8 := 0x1f
def shortField : UInt8 := 0x20
def fieldMask : UInt8 := 0x3f

/-- The operand field and the literal word that follows, if any. Register numbers are taken
modulo eight. -/
def encode : Operand → Except Fault (UInt8 × List UInt16)
  | register reg => .ok (reg.index &&& 7, [])
  | registerIndirect reg => .ok (indirectField + (reg.index &&& 7), [])
  | registerOffset reg offset => .ok (offsetField + (reg.index &&& 7), [offset.word])
  | special sp => if sp.isNamed then .ok (sp.code, []) else .error (.fieldOutOfRange sp.code)
  | memory address => .ok (memoryField, [address.word])
  | nextWord value => .ok (nextWordField, [value.word])
  | short value =>
    if value.word ≤ shortMax then .ok (shortField + value.word.toUInt8, [])
    else .error (.fieldOutOfRange (shortField + value.word.toUInt8))
  | pending value => .error (.labelMissing (value.label.getD []))
  | unknown mode reg sp value => .error (.notValue (describe mode reg sp value))

def fieldNeedsWord (field : UInt8) : Bool :=
  (offsetField ≤ field && field < Special.first) || field == memoryField || field == nextWordField

/-- The operand that a field and its literal word stand for. Fields without a literal ignore it. -/
def ofField (field : UInt8) (literal : UInt16) : Operand :=
  if field < indirectField then register ⟨field⟩
  else if field < offsetField then registerIndirect ⟨field - indirectField⟩
  else if field < Special.first then registerOffset ⟨field - offsetField⟩ ⟨literal, none⟩
  else if field < memoryField then special ⟨field⟩
  else if field = memoryField then memory ⟨literal, none⟩
  else if field = nextWordField then nextWord ⟨literal, none⟩
  else short ⟨(field - shortField).toUInt16, none⟩

def decode (field : UInt8) (words : List UInt16) : Option (Operand × List UInt16) :=
  if fieldNeedsWord field then
    match words with
    | [] => none
    | literal :: rest => some (ofField field literal, rest)
  else some (ofField field 0, words)

end Operand
end Asm16
