import Asm16.Constant.Datum
import Asm16.Numeral

/-! The functions that constant expressions may call. -/

namespace Asm16.Constant.Builtin

/-- The base of an integer and its digits without the base mark. Base zero means that the mark
decides, and then a number with a leading zero but no mark must be zero. -/
def splitMark (base : Nat) (t : Text) : Option (Nat × Text) :=
  let unmarked := some (if base = 0 then 10 else base, t)
  match t with
  | zero :: second :: rest =>
    if zero = '0'.toUInt8 then
      match (if rest.isEmpty then none else Numeral.markedBase? second) with
      | some marked => if base = 0 ∨ base = marked then some (marked, rest) else unmarked
      | none =>
        if base = 0 then (if t.all (· == zero) then unmarked else none) else unmarked
    else unmarked
  | _ => unmarked

def readInt? (base : Nat) (t : Text) : Option Int :=
  let negative := t.head? = some '-'.toUInt8
  let body := if negative ∨ t.head? = some '+'.toUInt8 then t.drop 1 else t
  match splitMark base body with
  | some (base, digits) => (Text.readLong? base digits).map fun n => if negative then -(n : Int) else n
  | none => none

def toInt? : List Datum → Option Datum
  | [.text t] => (readInt? 10 t.toList).map .int
  | [.text t, base] =>
    match base.small? with
    | some b => if b = 0 ∨ (2 ≤ b ∧ b ≤ 36) then (readInt? b.toNat t.toList).map .int else none
    | none => none
  | [.bool b] => some (.int (if b then 1 else 0))
  | [.int n] => some (.int n)
  | [.float x] => (Double.truncate? x).map .int
  | _ => none

def length? : List Datum → Option Datum
  | [.text t] => some (.int t.length)
  | [.list items] => some (.int items.length)
  | [.tuple items] => some (.int items.length)
  | _ => none

def codePoint? : List Datum → Option Datum
  | [.text t] =>
    -- A code point has at most four bytes, so that a long text need not be divided.
    match (if t.length ≤ 4 then Text.codePoints t.toList else []) with
    | [c] => some (.int c.scalar)
    | _ => none
  | _ => none

def absolute? : List Datum → Option Datum
  | [.int n] => some (.int n.natAbs)
  | [.float x] => some (.float x.abs)
  | _ => none

/-- The item that no later one goes beyond in the given direction. -/
def extremeFrom? (c : Comparison) (best : Datum) : List Datum → Option Datum
  | [] => some best
  | x :: rest =>
    match Datum.compare? c x best with
    | some true => extremeFrom? c x rest
    | some false => extremeFrom? c best rest
    | none => none

def extreme? (c : Comparison) (arguments : List Datum) : Option Datum :=
  let items :=
    match arguments with
    | [.list items] => items.toList
    | [.tuple items] => items.toList
    | [_] => []
    | many => many
  match items with
  | [] => none
  | x :: rest => extremeFrom? c x rest

def call? : Builtin → List Datum → Option Datum
  | abs => absolute?
  | bool => fun
    | [] => some (.bool false)
    | [x] => some (.bool x.isTrue)
    | _ => none
  | int => toInt?
  | len => length?
  | max => extreme? .greater
  | min => extreme? .less
  | ord => codePoint?
  | other _ => fun _ => none

end Asm16.Constant.Builtin
