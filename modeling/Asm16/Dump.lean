import Asm16.Text.Digits
import Asm16.Text.Field
import Asm16.Text.Lines

/-! Hex dumps. Words are written with four digits, eight to a line. Reading takes fields of
hexadecimal digits, with or without a base mark, up to a semicolon on each line. -/

namespace Asm16.Dump

def wordsPerLine : Nat := 8

def wordText (word : UInt16) : Text := Text.hexPadded 4 word.toNat

/-- What is written for the word with a number, out of so many: its digits and the space or newline after
them. -/
def chunk (count : Nat) (entry : UInt16 × Nat) : Text :=
  wordText entry.1 ++
    [if entry.2 % wordsPerLine = wordsPerLine - 1 ∨ entry.2 + 1 = count then Text.newline else Text.space]

def chunks (words : List UInt16) : List Text := words.zipIdx.map (chunk words.length)

def write (words : List UInt16) : Text := (chunks words).flatten

/-- A writer that may fail: the chunks that it has taken, in reverse, and how many more it will take. -/
structure Writer where
  taken : List Text
  room : Nat
  deriving DecidableEq, Repr

namespace Writer

def text (w : Writer) : Text := w.taken.reverse.flatten

def put (w : Writer) (chunk : Text) : Option Writer :=
  match w.room with
  | 0 => none
  | room + 1 => some ⟨chunk :: w.taken, room⟩

end Writer

/-- Writes words from a number on, out of so many, until a write fails, and tells whether none did. -/
def writeFrom (count number : Nat) (w : Writer) : List UInt16 → Writer × Bool
  | [] => (w, true)
  | word :: rest =>
    match w.put (chunk count (word, number)) with
    | none => (w, false)
    | some w => writeFrom count (number + 1) w rest

def writeSome (room : Nat) (words : List UInt16) : Text × Bool :=
  let result := writeFrom words.length 0 ⟨[], room⟩ words
  (result.1.text, result.2)

inductive Fault where
  | notWord (line : Nat) (field : Text)
  | lineTooLong
  | unreadable (reason : Text)
  deriving DecidableEq, Repr

def Fault.message : Fault → Text
  | notWord line field =>
    ascii "line " ++ Text.decimal line ++ ascii ": '" ++ field ++ ascii "' is not a hex word"
  | lineTooLong => ascii "bufio.Scanner: token too long"
  | unreadable reason => reason

def word? (field : Text) : Option UInt16 :=
  -- A lower case mark is dropped first, then an upper case one, so that a field may have both.
  match Text.read? 16 (Text.trimStart (ascii "0X") (Text.trimStart (ascii "0x") field)) with
  | some n => if n < 65536 then some (UInt16.ofNat n) else none
  | none => none

structure Reading where
  words : List UInt16
  fault : Option Fault
  deriving DecidableEq, Repr

def readFields (line : Nat) (words : List UInt16) : List Text → Reading
  | [] => ⟨words, none⟩
  | field :: rest =>
    match word? field with
    | some word => readFields line (word :: words) rest
    | none => ⟨words, some (.notWord line field)⟩

def readLines (number : Nat) (words : List UInt16) : List Text → Reading
  | [] => ⟨words, none⟩
  | line :: rest =>
    match readFields number words (Text.fields (Text.before Text.semicolon line)) with
    | ⟨words, none⟩ => readLines (number + 1) words rest
    | stopped => stopped

def read (text : Text) : Reading :=
  let input := Text.lines text
  match readLines 1 [] input.lines with
  | ⟨words, none⟩ => ⟨words.reverse, if input.overlong then some .lineTooLong else none⟩
  | ⟨words, some fault⟩ => ⟨words.reverse, some fault⟩

end Asm16.Dump
