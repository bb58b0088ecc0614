import Asm16.Text.Basic

/-! Numbers as digit strings: writing in any base, padded and grouped forms, and reading back. -/

namespace Asm16.Text

def digit (d : Nat) : UInt8 := if d < 10 then UInt8.ofNat (48 + d) else UInt8.ofNat (87 + d)

/-- The digits of a number without leading zeros; zero is one digit. -/
def digits (base n : Nat) : Text :=
  if _h : base < 2 ∨ n < base then [digit n] else digits base (n / base) ++ [digit (n % base)]
termination_by n
decreasing_by exact Nat.div_lt_self (by omega) (by omega)

def decimal (n : Nat) : Text := digits 10 n

def hex (n : Nat) : Text := digits 16 n

def hexPadded (width n : Nat) : Text := padZeros width (hex n)

def signed (write : Nat → Text) (n : Int) : Text :=
  if n < 0 then '-'.toUInt8 :: write n.natAbs else write n.natAbs

/-- Hexadecimal filled with zeros to `width` places, of which a sign takes one. -/
def hexSigned (width : Nat) (n : Int) : Text :=
  signed (hexPadded (if n < 0 then width - 1 else width)) n

/-- A comma after every third digit, counted from the end; the digits come last digit first. -/
def commas : Text → Text
  | a :: b :: c :: d :: rest => a :: b :: c :: ','.toUInt8 :: commas (d :: rest)
  | short => short

def grouped (n : Int) : Text := signed (fun m => (commas (decimal m).reverse).reverse) n

def digitValue? (b : UInt8) : Option Nat :=
  let n := b.toNat
  if 48 ≤ n ∧ n ≤ 57 then some (n - 48)
  else if 97 ≤ n ∧ n ≤ 122 then some (n - 87)
  else if 65 ≤ n ∧ n ≤ 90 then some (n - 55)
  else none

def digitOf? (base : Nat) (b : UInt8) : Option Nat :=
  (digitValue? b).filter (· < base)

def readFrom? (base : Nat) : Nat → Text → Option Nat
  | n, [] => some n
  | n, b :: rest =>
    match digitOf? base b with
    | none => none
    | some d => readFrom? base (n * base + d) rest

def read? (base : Nat) : Text → Option Nat
  | [] => none
  | t => readFrom? base 0 t

def horner (base : Nat) (digits : List Nat) : Nat := digits.foldl (fun n d => n * base + d) 0

/-- The value of digits read in halves, `depth` times over, which suits long numbers. -/
def halves (base : Nat) : Nat → List Nat → Nat
  | 0, digits => horner base digits
  | depth + 1, digits =>
    let low := digits.length / 2
    let parts := digits.splitAt (digits.length - low)
    halves base depth parts.1 * Nat.pow base low + halves base depth parts.2

def readLong? (base : Nat) : Text → Option Nat
  | [] => none
  | t => (t.mapM (digitOf? base)).map (halves base (t.length.log2 - 5))

def isDigit (b : UInt8) : Bool := 48 ≤ b && b ≤ 57

def isAsciiLetter (b : UInt8) : Bool := (97 ≤ b && b ≤ 122) || (65 ≤ b && b ≤ 90)

end Asm16.Text
