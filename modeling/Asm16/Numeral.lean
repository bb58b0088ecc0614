import Asm16.Text.Digits

/-! Numerals with a base mark: `0x`, `0o` and `0b` in either case, a leading `0` for octal, and
decimal otherwise. Operands are unsigned and must fit a word; constants given on the command line
are signed, must fit 64 bits, and may have underscores between digits. -/

namespace Asm16.Numeral

def markedBase? (mark : UInt8) : Option Nat :=
  if mark = 'x'.toUInt8 ∨ mark = 'X'.toUInt8 then some 16
  else if mark = 'o'.toUInt8 ∨ mark = 'O'.toUInt8 then some 8
  else if mark = 'b'.toUInt8 ∨ mark = 'B'.toUInt8 then some 2
  else none

/-- The base of a numeral and what remains after its mark. A mark needs something after it. -/
def splitBase : Text → Nat × Text
  | [] => (10, [])
  | zero :: rest =>
    if zero = '0'.toUInt8 then
      match rest with
      | mark :: d :: ds =>
        match markedBase? mark with
        | some base => (base, d :: ds)
        | none => (8, rest)
      | _ => (8, rest)
    else (10, zero :: rest)

def value? : Text → Option Nat
  | [] => none
  -- A zero alone is octal with nothing after it.
  | t => Text.readFrom? (splitBase t).1 0 (splitBase t).2

def word? (t : Text) : Option UInt16 :=
  match value? t with
  | some n => if n < 65536 then some (UInt16.ofNat n) else none
  | none => none

inductive Refusal where
  | malformed
  | outOfRange
  deriving DecidableEq, Repr

def longSize : Nat := 0x10000000000000000

def longHalf : Nat := 0x8000000000000000

/-- Reads digits and underscores; the first byte that is no digit, or that carries the value past
64 bits, decides. -/
def readLong (base : Nat) : Nat → Text → Except Refusal Nat
  | n, [] => .ok n
  | n, b :: rest =>
    if b = '_'.toUInt8 then readLong base n rest
    else match Text.digitOf? base b with
      | none => .error .malformed
      | some d => if n * base + d < longSize then readLong base (n * base + d) rest else .error .outOfRange

inductive Neighbour where
  | nothing
  | digit
  | underscore
  | other
  deriving DecidableEq, Repr

/-- Whether every underscore stands between two digits, `before` being what precedes. -/
def separatesFrom (isDigit : UInt8 → Bool) (before : Neighbour) : Text → Bool
  | [] => before ≠ .underscore
  | b :: rest =>
    if isDigit b then separatesFrom isDigit .digit rest
    else if b = '_'.toUInt8 then before = .digit && separatesFrom isDigit .underscore rest
    else before ≠ .underscore && separatesFrom isDigit .other rest

def underscoresFit (t : Text) : Bool :=
  match t with
  | zero :: mark :: rest =>
    match (if zero = '0'.toUInt8 then markedBase? mark else none) with
    | some base =>
      separatesFrom (fun b => Text.isDigit b || (base = 16 && (Text.digitOf? 16 b).isSome)) .digit rest
    | none => separatesFrom Text.isDigit .nothing t
  | _ => separatesFrom Text.isDigit .nothing t

def unsigned (t : Text) : Except Refusal Nat :=
  if t.isEmpty then .error .malformed
  else match readLong (splitBase t).1 0 (splitBase t).2 with
    | .error e => .error e
    | .ok n => if t.contains '_'.toUInt8 && !underscoresFit t then .error .malformed else .ok n

/-- The value of a numeral with an optional sign, of at most 64 bits in two's complement. -/
def signed (t : Text) : Except Refusal Int :=
  let negative := t.head? = some '-'.toUInt8
  let body := if negative ∨ t.head? = some '+'.toUInt8 then t.drop 1 else t
  match unsigned body with
  | .error e => .error e
  | .ok n =>
    if negative then (if n ≤ longHalf then .ok (-(n : Int)) else .error .outOfRange)
    else if n < longHalf then .ok n
    else .error .outOfRange

end Asm16.Numeral
