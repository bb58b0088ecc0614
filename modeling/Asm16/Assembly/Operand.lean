import Asm16.Machine.Operand
import Asm16.Numeral
import Asm16.Program
import Asm16.Token

/-! Operands as they are written. A value is a number, an expression, either of them negated, or a
label. A bare label that is already declared is as compact as its address allows; one that is not
will always take a word of its own, so its address need not be known. What the text of an expression
stands for is left to an evaluator. -/

namespace Asm16.Assembly

def isLabelStart (b : UInt8) : Bool := Text.isAsciiLetter b || b == '_'.toUInt8 || b == '.'.toUInt8

def isLabel : Text → Bool
  | [] => false
  | b :: rest => isLabelStart b && rest.all fun c => isLabelStart c || Text.isDigit c

def minusToken : Text := ascii "-"
def plusToken : Text := ascii "+"
def openToken : Text := ascii "["
def closeToken : Text := ascii "]"

/-- What gives the text of an expression its value. -/
abbrev Evaluator := Text → Option Int

/-- The word that an integer stands for: signed or unsigned, it must fit 16 bits. -/
def wordOfInt? (n : Int) : Option UInt16 :=
  if -0x8000 ≤ n ∧ n ≤ 0xffff then some (UInt16.ofNat (n % 65536).toNat) else none

def expressionWord (evaluate : Evaluator) (token : Text) : Except Fault UInt16 :=
  let inner := token.drop 2
  if inner.getLast? = some Token.closeParen then
    match (evaluate inner.dropLast).bind wordOfInt? with
    | some word => .ok word
    | none => .error (.notExpression inner.dropLast)
  else .error (.notExpression inner)

def numberWord (evaluate : Evaluator) (token : Text) : Except Fault UInt16 :=
  if Token.expressionStart.isPrefixOf token then expressionWord evaluate token
  else match token with
    | [] => .error (.notValue token)
    | b :: _ =>
      if Text.isDigit b then
        match Numeral.word? token with
        | some word => .ok word
        | none => .error (.notNumber token)
      else .error (.notValue token)

/-- The value that a single token stands for. The word of a label is filled in later. -/
def atom (evaluate : Evaluator) (token : Text) : Except Fault Value :=
  if isReserved token then .error (.notValue token)
  else if isLabel token then .ok ⟨0, some token⟩
  else match numberWord evaluate token with
    | .ok word => .ok ⟨word, none⟩
    | .error e => .error e

def value (evaluate : Evaluator) (tokens : List Text) : Except Fault Value :=
  match tokens with
  | [token] => atom evaluate token
  | [minus, token] =>
    if minus = minusToken then
      match numberWord evaluate token with
      | .ok word => .ok ⟨-word, none⟩
      | .error e => .error e
    else .error (.notValue (Text.spaced tokens))
  | _ => .error (.notValue (Text.spaced tokens))

/-- A value with the address of its label, as far as that is declared. -/
def located (symbols : Symbols) (v : Value) : Value :=
  match v.label with
  | none => v
  | some label => ⟨symbols.getD label 0, some label⟩

/-- The operand between brackets: a register, an address, or an offset and a register in either
order. `whole` is the operand as written, for the message. -/
def bracketed (evaluate : Evaluator) (symbols : Symbols) (whole : Text) (inner : List Text) :
    Except Fault Operand :=
  match inner with
  | [token] =>
    match Register.ofName? token with
    | some reg => .ok (.registerIndirect reg)
    | none =>
      if isReserved token then .error (.notValue whole)
      else match atom evaluate token with
        | .ok address => .ok (.memory (located symbols address))
        | .error e => .error e
  | [left, plus, right] =>
    let split :=
      match Register.ofName? right with
      | some reg => some (left, reg)
      | none => (Register.ofName? left).map fun reg => (right, reg)
    match (if plus = plusToken then split else none) with
    | some (token, reg) =>
      if isReserved token then .error (.notValue whole)
      else match atom evaluate token with
        | .ok offset => .ok (.registerOffset reg (located symbols offset))
        | .error e => .error e
    | none => .error (.notValue whole)
  | _ => .error (.notValue whole)

def bare (symbols : Symbols) (v : Value) : Operand :=
  match v.label with
  | none => .literal v
  | some label =>
    match symbols[label]? with
    | some address => .literal ⟨address, some label⟩
    | none => .pending v

def named? (token : Text) : Option Operand :=
  match Register.ofName? token with
  | some reg => some (.register reg)
  | none => (Special.ofName? token).map .special

def operand (evaluate : Evaluator) (symbols : Symbols) (tokens : List Text) :
    Except Fault Operand :=
  match tokens with
  | [] => .error .operandMissing
  | first :: rest =>
    if first = openToken then
      if 2 ≤ rest.length ∧ rest.getLast? = some closeToken then
        bracketed evaluate symbols tokens.flatten rest.dropLast
      else .error (.notValue tokens.flatten)
    else match (if rest.isEmpty then named? first else none) with
      | some op => .ok op
      | none =>
        match value evaluate tokens with
        | .ok v => .ok (bare symbols v)
        | .error e => .error e

end Asm16.Assembly
