import Std.Data.TreeMap
import Asm16.Dump
import Asm16.Listing
import Asm16.Sequence

/-! Assembled programs: the words of each statement with their line and address, and the addresses
of the labels. -/

namespace Asm16

/-- The word address of each label. -/
abbrev Symbols := Std.TreeMap Text UInt16

namespace Program

structure Entry where
  line : Int
  address : Int
  tokens : List Text
  words : List UInt16
  deriving DecidableEq, Repr

def Entry.covers (e : Entry) (address : UInt16) : Bool :=
  e.address ≤ address.toNat && address.toNat < e.address + e.words.length

end Program

structure Program where
  entries : List Program.Entry
  symbols : Symbols

namespace Program

def empty : Program := ⟨[], ∅⟩

def words (p : Program) : List UInt16 := p.entries.flatMap Entry.words

/-- The words of the entries, handed over one at a time. -/
def wordSequence (p : Program) : Sequence UInt16 := .concat (p.entries.map fun e => .ofList e.words)

def codeSequence (p : Program) : Sequence (UInt16 × UInt16) := .count 0 p.wordSequence

def find? (p : Program) (address : UInt16) : Option (Entry × Int) :=
  (p.entries.find? (·.covers address)).map fun e => (e, address.toNat - e.address)

def labels (p : Program) : List (Text × UInt16) := p.symbols.toList

def disassemble (p : Program) : Except DecodeError Text := Asm16.disassemble p.words

def dump (p : Program) : Text := Dump.write p.words

end Program
end Asm16
