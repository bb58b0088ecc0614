import Asm16.Assembly.Operand
import Asm16.Machine.Instruction

/-! Statements: data words, or one instruction. -/

namespace Asm16.Assembly

inductive Body where
  | data (values : List Value)
  | instruction (inst : Instruction)
  deriving DecidableEq, Repr

namespace Body

def size : Body → Nat
  | data values => values.length
  | instruction inst => inst.size

end Body

def commaToken : Text := ascii ","

/-- The values of a data statement, the first fault deciding; `values` holds those before in
reverse. -/
def dataFrom (evaluate : Evaluator) (values : List Value) :
    List (List Text) → Except Fault Body
  | [] => .ok (.data values.reverse)
  | argument :: rest =>
    match value evaluate argument with
    | .ok v => dataFrom evaluate (v :: values) rest
    | .error e => .error e

def nonBasic (evaluate : Evaluator) (symbols : Symbols) (op : NonBasicOp) :
    List (List Text) → Except Fault Body
  | [argument] =>
    match operand evaluate symbols argument with
    | .ok a => .ok (.instruction (.nonBasic op a))
    | .error e => .error e
  | _ => .error .argumentsExcessive

def basic (evaluate : Evaluator) (symbols : Symbols) (op : BasicOp) :
    List (List Text) → Except Fault Body
  | [left, right] =>
    match operand evaluate symbols left with
    | .error e => .error e
    | .ok a =>
      match operand evaluate symbols right with
      | .error e => .error e
      | .ok b => .ok (.instruction (.basic op a b))
  | [_] => .error .commaMissing
  | _ => .error .argumentsExcessive

def statement (evaluate : Evaluator) (symbols : Symbols) (mnemonic : Text)
    (rest : List Text) : Except Fault Body :=
  let arguments := rest.splitOn commaToken
  if Text.upper mnemonic = ascii "DAT" then
    if rest.isEmpty then .error .operandMissing else dataFrom evaluate [] arguments
  else match NonBasicOp.ofName? mnemonic with
    | some op => nonBasic evaluate symbols op arguments
    | none =>
      match BasicOp.ofName? mnemonic with
      | some op =>
        if rest.isEmpty then .error .operandMissing else basic evaluate symbols op arguments
      | none => .error (.notInstruction mnemonic)

def bindValue (symbols : Symbols) (v : Value) : Except Fault Value :=
  match v.label with
  | none => .ok v
  | some label =>
    match symbols[label]? with
    | some address => .ok ⟨address, some label⟩
    | none => .error (.labelMissing label)

/-- Fills in the address of an operand's label. A pending label takes the next word. -/
def bindOperand (symbols : Symbols) : Operand → Except Fault Operand
  | .registerOffset reg offset => (bindValue symbols offset).map (.registerOffset reg)
  | .memory address => (bindValue symbols address).map .memory
  | .nextWord v => (bindValue symbols v).map .nextWord
  | .short v => (bindValue symbols v).map .short
  | .pending v => (bindValue symbols v).map .nextWord
  | op => .ok op

def bindInstruction (symbols : Symbols) : Instruction → Except Fault Instruction
  | .basic op a b =>
    match bindOperand symbols a with
    | .error e => .error e
    | .ok a => (bindOperand symbols b).map (.basic op a)
  | .nonBasic op a => (bindOperand symbols a).map (.nonBasic op)

/-- The words of data values, the first missing label deciding; `words` holds those before in
reverse. -/
def dataWordsFrom (symbols : Symbols) (words : List UInt16) : List Value → Except Fault (List UInt16)
  | [] => .ok words.reverse
  | v :: rest =>
    match bindValue symbols v with
    | .ok v => dataWordsFrom symbols (v.word :: words) rest
    | .error e => .error e

def Body.emit (symbols : Symbols) : Body → Except Fault (List UInt16)
  | data values => dataWordsFrom symbols [] values
  | instruction inst =>
    match bindInstruction symbols inst with
    | .error e => .error e
    | .ok inst => inst.encode.map Code.words

end Asm16.Assembly
