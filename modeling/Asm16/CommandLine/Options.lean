import Asm16.Constant.Eval
import Asm16.Numeral
import Asm16.Text.Quoted

/-! Command line options. An option starts with one or two dashes; its value follows an equals sign
or is the next argument. A single dash, a double dash, or an argument that is no option ends
them. -/

namespace Asm16.CommandLine

structure Options where
  compile : Text := []
  disassemble : Text := []
  output : Text := ascii "-"
  verbose : Bool := false
  constants : Constant.Constants := ∅

inductive Refusal where
  | help
  | misuse (line : Text)
  deriving DecidableEq, Repr

def usage : Text :=
  [ascii "Usage of dcpu16:",
    ascii "  -D value",
    ascii "    \tPredefine NAME=VALUE for $(...) expressions",
    ascii "  -c string",
    ascii "    \t.s file to assemble ('-' for stdin)",
    ascii "  -d string",
    ascii "    \thex word dump to disassemble ('-' for stdin)",
    ascii "  -o string",
    ascii "    \tOutput file (default \"-\")",
    ascii "  -v\tVerbose mode"].flatMap (· ++ [Text.newline])

inductive Argument where
  | operand
  | terminator
  | malformed
  | option (name : Text) (value : Option Text)
  deriving DecidableEq, Repr

def dash : UInt8 := '-'.toUInt8
def equals : UInt8 := '='.toUInt8

/-- The option that a text without its dashes stands for. -/
def Argument.ofBody (body : Text) : Argument :=
  match body with
  | [] => .malformed
  | b :: _ =>
    if b = dash ∨ b = equals then .malformed
    else match Text.cut? equals body with
      | some (name, value) => .option name (some value)
      | none => .option body none

def Argument.ofText : Text → Argument
  | first :: second :: rest =>
    if first ≠ dash then .operand
    else if second ≠ dash then .ofBody (second :: rest)
    else if rest.isEmpty then .terminator
    else .ofBody rest
  | _ => .operand

def truth? (t : Text) : Option Bool :=
  if [ascii "1", ascii "t", ascii "T", ascii "TRUE", ascii "true", ascii "True"].contains t then some true
  else if [ascii "0", ascii "f", ascii "F", ascii "FALSE", ascii "false", ascii "False"].contains t then
    some false
  else none

def refusalText (number : Text) (r : Numeral.Refusal) : Text :=
  ascii "strconv.ParseInt: parsing " ++ Text.quoted number ++
    match r with
    | .malformed => ascii ": invalid syntax"
    | .outOfRange => ascii ": value out of range"

/-- Adds a constant given as a name, an equals sign and a number. -/
def Options.define (o : Options) (definition : Text) : Except Text Options :=
  match Text.cut? equals definition with
  | some (name@(_ :: _), number) =>
    match Numeral.signed number with
    | .ok n => .ok { o with constants := o.constants.insert name n }
    | .error r => .error (refusalText number r)
  | _ => .error (ascii "expected NAME=VALUE, got " ++ Text.quoted definition)

inductive Slot where
  | compile
  | disassemble
  | output
  | define
  deriving DecidableEq, Repr

def Slot.ofName? (name : Text) : Option Slot :=
  if name = ascii "c" then some compile
  else if name = ascii "d" then some disassemble
  else if name = ascii "o" then some output
  else if name = ascii "D" then some define
  else none

def Options.set (o : Options) (slot : Slot) (name value : Text) : Except Refusal Options :=
  match slot with
  | .compile => .ok { o with compile := value }
  | .disassemble => .ok { o with disassemble := value }
  | .output => .ok { o with output := value }
  | .define =>
    match o.define value with
    | .ok o => .ok o
    | .error reason =>
      .error (.misuse (ascii "invalid value " ++ Text.quoted value ++ ascii " for flag -" ++ name ++
        ascii ": " ++ reason))

def Options.setVerbose (o : Options) (name : Text) (value : Option Text) : Except Refusal Options :=
  match value with
  | none => .ok { o with verbose := true }
  | some t =>
    match truth? t with
    | some b => .ok { o with verbose := b }
    | none =>
      .error (.misuse (ascii "invalid boolean value " ++ Text.quoted t ++ ascii " for -" ++ name ++
        ascii ": parse error"))

def Options.readFrom (o : Options) : List Text → Except Refusal (Options × List Text)
  | [] => .ok (o, [])
  | argument :: rest =>
    match Argument.ofText argument with
    | .operand => .ok (o, argument :: rest)
    | .terminator => .ok (o, rest)
    | .malformed => .error (.misuse (ascii "bad flag syntax: " ++ argument))
    | .option name value =>
      if name = ascii "v" then
        match o.setVerbose name value with
        | .ok o => readFrom o rest
        | .error e => .error e
      else match Slot.ofName? name with
        | none =>
          if name = ascii "h" ∨ name = ascii "help" then .error .help
          else .error (.misuse (ascii "flag provided but not defined: -" ++ name))
        | some slot =>
          match value, rest with
          | some value, rest =>
            match o.set slot name value with
            | .ok o => readFrom o rest
            | .error e => .error e
          | none, value :: rest =>
            match o.set slot name value with
            | .ok o => readFrom o rest
            | .error e => .error e
          | none, [] => .error (.misuse (ascii "flag needs an argument: -" ++ name))

def Options.read (arguments : List Text) : Except Refusal (Options × List Text) :=
  Options.readFrom {} arguments

end Asm16.CommandLine
