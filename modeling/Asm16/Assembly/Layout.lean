import Asm16.Assembly.Statement
import Asm16.Text.Lines

/-! The first pass. Lines are taken in order; each label gets the address reached so far and each
statement adds its size to it, so that all addresses are known when the pass ends. -/

namespace Asm16.Assembly

def memorySize : Nat := 65536

/-- The lines of a source, and what kept the rest of it from being read, if anything did. -/
structure Source where
  lines : List Text
  stop : Option Fault
  deriving DecidableEq, Repr

def Source.ofText (t : Text) : Source :=
  let input := Text.lines t
  ⟨input.lines, if input.overlong then some .lineTooLong else none⟩

def Source.unreadable (reason : Text) : Source := ⟨[], some (.unreadable reason)⟩

structure Statement where
  line : Nat
  text : Text
  tokens : List Text
  body : Body
  deriving DecidableEq, Repr

/-- The state of the first pass; the statements are in reverse. -/
structure Layout where
  symbols : Symbols
  address : Nat
  statements : List Statement

namespace Layout

def start : Layout := ⟨∅, 0, []⟩

def colonToken : Text := ascii ":"

/-- Declares the labels that a line starts with, and gives the tokens after them. -/
def declare (address : Nat) (symbols : Symbols) : List Text → Except Fault (Symbols × List Text)
  | [] => .ok (symbols, [])
  | [token] => if token = colonToken then .error (.labelInvalid []) else .ok (symbols, [token])
  | token :: label :: rest =>
    if token = colonToken then
      if !isLabel label then .error (.labelInvalid label)
      else if isReserved label then .error (.labelReserved label)
      else if symbols.contains label then .error .labelDuplicated
      else if memorySize ≤ address then .error .programTooLarge
      else declare address (symbols.insert label (UInt16.ofNat address)) rest
    else .ok (symbols, token :: label :: rest)

def addLine (evaluate : Evaluator) (number : Nat) (line : Text) (layout : Layout) :
    Except Fault Layout :=
  match declare layout.address layout.symbols (Token.ofLine line) with
  | .error e => .error e
  | .ok (symbols, []) => .ok { layout with symbols := symbols }
  | .ok (symbols, mnemonic :: rest) =>
    match statement evaluate symbols mnemonic rest with
    | .error e => .error e
    | .ok body =>
      let address := layout.address + body.size
      if memorySize < address then .error .programTooLarge
      else .ok ⟨symbols, address, ⟨number, line, mnemonic :: rest, body⟩ :: layout.statements⟩

def addLines (evaluate : Evaluator) (number : Nat) (layout : Layout) :
    List Text → Except SyntaxError Layout
  | [] => .ok layout
  | line :: rest =>
    match layout.addLine evaluate number line with
    | .error e => .error ⟨number, line, e⟩
    | .ok layout => addLines evaluate (number + 1) layout rest

/-- The layout of a source. What stops the reading counts as a fault of the line after the last. -/
def ofSource (evaluate : Evaluator) (source : Source) : Except SyntaxError Layout :=
  match addLines evaluate 1 start source.lines with
  | .error e => .error e
  | .ok layout =>
    match source.stop with
    | some fault => .error ⟨source.lines.length + 1, [], fault⟩
    | none => .ok layout

end Layout
end Asm16.Assembly
