/-! Text is a sequence of bytes. Sources, dumps and command line arguments need not be valid
UTF-8, and everything the assembler compares is ASCII, so bytes are the right unit throughout. -/

namespace Asm16

abbrev Text := List UInt8

def ascii (s : String) : Text := s.toList.map Char.toUInt8

namespace Text

def newline : UInt8 := '\n'.toUInt8
def carriageReturn : UInt8 := '\r'.toUInt8
def space : UInt8 := ' '.toUInt8
def semicolon : UInt8 := ';'.toUInt8

/-- The part of a text before the first occurrence of a byte; all of it if there is none. -/
def before (b : UInt8) (t : Text) : Text := t.takeWhile (· != b)

def cut? (b : UInt8) (t : Text) : Option (Text × Text) :=
  match t.dropWhile (· != b) with
  | [] => none
  | _ :: rest => some (before b t, rest)

/-- A text without the given beginning, or the text itself if it begins otherwise. -/
def trimStart (start t : Text) : Text := if start.isPrefixOf t then t.drop start.length else t

def spaced (pieces : List Text) : Text := List.intercalate [space] pieces

def stacked (pieces : List Text) : Text := List.intercalate [newline] pieces

def padRight (width : Nat) (t : Text) : Text := t ++ List.replicate (width - t.length) space

def padZeros (width : Nat) (t : Text) : Text :=
  List.replicate (width - t.length) '0'.toUInt8 ++ t

end Text
end Asm16
