import Asm16.Assembly.Layout
import Asm16.Constant.Eval

/-! Assembly. After the first pass every label has its address, and the second pass emits the words
of each statement with the labels filled in. -/

namespace Asm16.Assembly

/-- Emits statements from an address on; `done` holds the entries before in reverse. -/
def emitFrom (symbols : Symbols) (address : Nat) (done : List Program.Entry) :
    List Statement → Except SyntaxError (List Program.Entry)
  | [] => .ok done.reverse
  | s :: rest =>
    match s.body.emit symbols with
    | .error e => .error ⟨s.line, s.text, e⟩
    | .ok words => emitFrom symbols (address + words.length) (⟨s.line, address, s.tokens, words⟩ :: done) rest

def Layout.emit (layout : Layout) : Except SyntaxError Program :=
  match emitFrom layout.symbols 0 [] layout.statements.reverse with
  | .error e => .error e
  | .ok entries => .ok ⟨entries, layout.symbols⟩

def parse (evaluate : Evaluator) (source : Source) : Except SyntaxError Program :=
  match Layout.ofSource evaluate source with
  | .error e => .error e
  | .ok layout => layout.emit

def assemble (text : Text) : Except SyntaxError (List UInt16) :=
  (parse Constant.closed (Source.ofText text)).map Program.words

def logLine (number : Nat) (line : Text) : Text := Text.decimal number ++ ascii ": " ++ line ++ [Text.newline]

/-- Takes lines from a number on. In verbose mode each one is logged before it is taken; `log` holds the lines of the
log so far in reverse. -/
def Layout.addLinesLogged (verbose : Bool) (evaluate : Evaluator) (number : Nat) (log : List Text)
    (layout : Layout) : List Text → Except SyntaxError Layout × List Text
  | [] => (.ok layout, log)
  | line :: rest =>
    let log := if verbose then logLine number line :: log else log
    match layout.addLine evaluate number line with
    | .error e => (.error ⟨number, line, e⟩, log)
    | .ok layout => addLinesLogged verbose evaluate (number + 1) log layout rest

structure Logged where
  result : Except SyntaxError Program
  log : Text

def parseLogged (verbose : Bool) (evaluate : Evaluator) (source : Source) : Logged :=
  match Layout.addLinesLogged verbose evaluate 1 [] .start source.lines with
  | (.error e, log) => ⟨.error e, log.reverse.flatten⟩
  | (.ok layout, log) =>
    match source.stop with
    | some fault => ⟨.error ⟨source.lines.length + 1, [], fault⟩, log.reverse.flatten⟩
    | none => ⟨layout.emit, log.reverse.flatten⟩

end Asm16.Assembly
