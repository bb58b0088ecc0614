import Asm16.Assembly.Assemble

/-! Sessions. A session keeps the constants defined so far and the program of the last source that
assembled; everything else asks about that program. -/

namespace Asm16

structure Session where
  constants : Constant.Constants := ∅
  verbose : Bool := false
  program : Program := .empty

namespace Session

/-- The part of a list that is asked for: from an index up to another one, or all of it. -/
structure Window where
  bounds : Option (Nat × Nat) := none
  deriving DecidableEq, Repr

def Window.view {α : Type} (w : Window) (items : List α) : List α :=
  match w.bounds with
  | some (start, stop) => (items.take stop).drop start
  | none => items

inductive Step where
  | predefine (name : Text) (value : Int)
  | verbose (on : Bool)
  | parse (source : Text)
  | words (window : Window)
  | entries (window : Window)
  | labels
  | find (address : UInt16)
  | codes (limit : Option Nat)
  | disassemble
  | dump
  deriving DecidableEq, Repr

inductive Answer where
  | done
  /-- The numbers of entries and words of the new program, and the log if it was wanted. -/
  | parsed (result : Except SyntaxError (Nat × Nat)) (log : Option Text)
  | words (words : List UInt16)
  | entries (entries : List Program.Entry)
  | labels (labels : List (Text × UInt16))
  | found (place : Option (Program.Entry × Int))
  | codes (codes : List (UInt16 × UInt16))
  | disassembled (result : Except DecodeError Text)
  | dumped (text : Text)

def parse (s : Session) (text : Text) : Except SyntaxError Program :=
  Assembly.parse (Constant.evaluate? s.constants) (Assembly.Source.ofText text)

def parseLogged (s : Session) (text : Text) : Assembly.Logged :=
  Assembly.parseLogged s.verbose (Constant.evaluate? s.constants) (Assembly.Source.ofText text)

def log? (s : Session) (logged : Assembly.Logged) : Option Text := if s.verbose then some logged.log else none

/-- Takes a source: the program is replaced if it assembles and kept if it does not. -/
def take (s : Session) (text : Text) : Session × Answer :=
  let logged := s.parseLogged text
  match logged.result with
  | .ok p => ({ s with program := p }, .parsed (.ok (p.entries.length, p.words.length)) (s.log? logged))
  | .error e => (s, .parsed (.error e) (s.log? logged))

def step (s : Session) : Step → Session × Answer
  | .predefine name value => ({ s with constants := s.constants.insert name value }, .done)
  | .verbose on => ({ s with verbose := on }, .done)
  | .parse source => s.take source
  | .words window => (s, .words (window.view s.program.words))
  | .entries window => (s, .entries (window.view s.program.entries))
  | .labels => (s, .labels s.program.labels)
  | .find address => (s, .found (s.program.find? address))
  | .codes limit => (s, .codes (s.program.codeSequence.collect limit))
  | .disassemble => (s, .disassembled s.program.disassemble)
  | .dump => (s, .dumped s.program.dump)

def runFrom (s : Session) (answers : List Answer) : List Step → Session × List Answer
  | [] => (s, answers.reverse)
  | step :: rest => runFrom (s.step step).1 ((s.step step).2 :: answers) rest

def run (s : Session) (steps : List Step) : List Answer := (runFrom s [] steps).2

end Session
end Asm16
