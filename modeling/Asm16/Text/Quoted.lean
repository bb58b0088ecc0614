import Asm16.Text.Digits
import Asm16.Text.Printable

/-! Quoted text. Printable code points stand for themselves; quotes, backslashes, control
characters, unprintable code points and bytes that are not UTF-8 are written as escapes. -/

namespace Asm16.Text

/-- The letter that follows the backslash for the control characters that have one. -/
def controlEscape? : Nat → Option Char
  | 7 => some 'a'
  | 8 => some 'b'
  | 9 => some 't'
  | 10 => some 'n'
  | 11 => some 'v'
  | 12 => some 'f'
  | 13 => some 'r'
  | _ => none

def quoteMark : UInt8 := '"'.toUInt8
def backslash : UInt8 := '\\'.toUInt8

def numericEscape (letter : Char) (width n : Nat) : Text :=
  backslash :: letter.toUInt8 :: hexPadded width n

def CodePoint.quoted (c : CodePoint) : Text :=
  match c.scalar? with
  | none => c.bytes.flatMap fun b => numericEscape 'x' 2 b.toNat
  | some n =>
    if c.bytes = [quoteMark] ∨ c.bytes = [backslash] then backslash :: c.bytes
    else if isPrintable n then c.bytes
    else match controlEscape? n with
      | some letter => [backslash, letter.toUInt8]
      | none =>
        if n < 0x20 ∨ n = 0x7f then numericEscape 'x' 2 n
        else if n < 0x10000 then numericEscape 'u' 4 n
        else numericEscape 'U' 8 n

def quoted (t : Text) : Text :=
  quoteMark :: (codePoints t).flatMap CodePoint.quoted ++ [quoteMark]

end Asm16.Text
