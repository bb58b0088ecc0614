import Asm16.Assembly.Assemble
import Asm16.CommandLine.Options

/-! What a run does once its input is open: the lines it logs, the chunks it writes one after the
other, and the message it fails with, if it does. -/

namespace Asm16.CommandLine

structure Report where
  log : Text := []
  chunks : List Text := []
  failure : Option Text := none
  deriving DecidableEq, Repr

/-- What can be read from the input: a text, or the reason why it cannot be read. -/
inductive Input where
  | text (t : Text)
  | unreadable (reason : Text)
  deriving DecidableEq, Repr

def about (name message : Text) : Text := name ++ ascii ": " ++ message

def entryLog (p : Program) : Text :=
  p.entries.flatMap fun e =>
    Text.hexSigned 4 e.address ++ ascii ": " ++ Text.spaced e.tokens ++ [Text.newline]

def assembleReport (o : Options) (input : Input) : Report :=
  let source :=
    match input with
    | .text t => Assembly.Source.ofText t
    | .unreadable reason => Assembly.Source.unreadable reason
  match Assembly.parseLogged o.verbose (Constant.evaluate? o.constants) source with
  | ⟨.error e, log⟩ => ⟨log, [], some (about o.compile e.toError.message)⟩
  | ⟨.ok p, log⟩ => ⟨log ++ (if o.verbose then entryLog p else []), Dump.chunks p.words, none⟩

/-- A listing as one line; in verbose mode with its address and words. -/
def listingLine (verbose : Bool) (l : Listing) : Text :=
  if verbose then
    Text.padRight 24 l.text ++ ascii " ; " ++ Text.hexPadded 4 l.address ++ ascii ": [" ++
      Text.spaced (l.words.map fun w => Text.hexPadded 4 w.toNat) ++ ascii "]" ++ [Text.newline]
  else l.text ++ [Text.newline]

/-- The lines of a walk up to its error; `lines` holds those before in reverse. -/
def listingFrom (o : Options) (lines : List Text) : List WalkItem → Report
  | [] => ⟨[], lines.reverse, none⟩
  | .ok l :: rest => listingFrom o (listingLine o.verbose l :: lines) rest
  | .error e :: _ => ⟨[], lines.reverse, some (about o.disassemble e.toError.message)⟩

def disassembleReport (o : Options) (input : Input) : Report :=
  let reading : Dump.Reading :=
    match input with
    | .text t => Dump.read t
    | .unreadable reason => ⟨[], some (.unreadable reason)⟩
  match reading.fault with
  | some fault => ⟨[], [], some (about o.disassemble fault.message)⟩
  | none => listingFrom o [] (walk reading.words)

def Options.input (o : Options) : Text := if o.compile.isEmpty then o.disassemble else o.compile

def report (o : Options) (input : Input) : Report :=
  if o.compile.isEmpty then disassembleReport o input else assembleReport o input

structure Ending where
  exit : Nat
  message : Text
  deriving DecidableEq, Repr

def Ending.fatal (line : Text) : Ending := ⟨1, line ++ [Text.newline]⟩

def programName : Text := ascii "dcpu16"

/-- The options of a run, or how it ends before it opens any file. -/
def prepare (arguments : List Text) : Except Ending Options :=
  match Options.read arguments with
  | .error .help => .error ⟨0, usage⟩
  | .error (.misuse line) => .error ⟨2, line ++ [Text.newline] ++ usage⟩
  | .ok (o, []) =>
    if o.compile.isEmpty = o.disassemble.isEmpty then
      .error (.fatal (about programName (ascii "exactly one of -c or -d is required")))
    else .ok o
  | .ok (_, extra) =>
    .error (.fatal (about programName (ascii "Unknown arguments: [" ++ Text.spaced extra ++ ascii "]")))

end Asm16.CommandLine
