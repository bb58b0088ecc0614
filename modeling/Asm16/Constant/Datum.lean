import Asm16.Constant.Expr
import Asm16.Constant.Repeated

/-! The values of constant expressions and the operations on them. Integers are unbounded, truth
values are no integers, and an operation that is not defined on its operands has no result. -/

namespace Asm16.Constant

inductive Builtin where
  | abs | bool | int | len | max | min | ord
  | other (name : Text)
  deriving DecidableEq, Repr

inductive Datum where
  | nothing
  | bool (b : Bool)
  | int (n : Int)
  | float (x : Float)
  | text (t : Repeated UInt8)
  | list (items : Repeated Datum)
  | tuple (items : Repeated Datum)
  | builtin (f : Builtin)

def twoTo (n : Nat) : Nat := 1 <<< n

namespace Bits

def and : Int → Int → Int
  | .ofNat m, .ofNat n => ((m &&& n : Nat) : Int)
  | .ofNat m, .negSucc n => ((m - (m &&& n) : Nat) : Int)
  | .negSucc m, .ofNat n => ((n - (n &&& m) : Nat) : Int)
  | .negSucc m, .negSucc n => .negSucc (m ||| n)

def or : Int → Int → Int
  | .ofNat m, .ofNat n => ((m ||| n : Nat) : Int)
  | .ofNat m, .negSucc n => .negSucc (n - (n &&& m))
  | .negSucc m, .ofNat n => .negSucc (m - (m &&& n))
  | .negSucc m, .negSucc n => .negSucc (m &&& n)

def xor : Int → Int → Int
  | .ofNat m, .ofNat n => ((m ^^^ n : Nat) : Int)
  | .ofNat m, .negSucc n => .negSucc (m ^^^ n)
  | .negSucc m, .ofNat n => .negSucc (m ^^^ n)
  | .negSucc m, .negSucc n => ((m ^^^ n : Nat) : Int)

def not (n : Int) : Int := -n - 1

def shiftLeft (m : Int) (n : Nat) : Int :=
  match m with
  | .ofNat k => ((k <<< n : Nat) : Int)
  | .negSucc k => -(((k + 1) <<< n : Nat) : Int)

end Bits

namespace Double

/-- A finite double as an integer times a power of two. -/
def parts? (x : Float) : Option (Int × Int) :=
  let bits : Nat := x.toBits.toNat
  let exponent : Nat := bits / twoTo 52 % twoTo 11
  let fraction : Nat := bits % twoTo 52
  let magnitude : Nat := if exponent = 0 then fraction else twoTo 52 + fraction
  if exponent = 2047 then none
  else
    some (if bits < twoTo 63 then magnitude else -(magnitude : Int),
      (if exponent = 0 then 1 else exponent : Int) - 1075)

def ofInt? (n : Int) : Option Float :=
  let x := Float.ofInt n
  if x.isInf then none else some x

def truncate? (x : Float) : Option Int :=
  (parts? x).map fun (m, e) => if e < 0 then m.tdiv (twoTo e.natAbs) else m * twoTo e.natAbs

/-- The order of an integer and a double. Not-a-number comes after everything. -/
def compareInt (n : Int) (x : Float) : Ordering :=
  if x.isNaN then .lt
  else match parts? x with
    | some (m, e) => if e < 0 then compare (n * twoTo e.natAbs) m else compare n (m * twoTo e.natAbs)
    | none => if x > 0 then .lt else .gt

def compareDouble (x y : Float) : Ordering :=
  if x < y then .lt
  else if x > y then .gt
  else if x == y then .eq
  else match x.isNaN, y.isNaN with
    | true, true => .eq
    | true, false => .gt
    | _, _ => .lt

/-- The remainder of the division rounded towards zero, which is always a double. -/
def remainder (x y : Float) : Float :=
  match parts? x, parts? y with
  | some (m, e), some (n, f) =>
    let low := if e < f then e else f
    let r := Int.tmod (m * twoTo (e - low).natAbs) (n * twoTo (f - low).natAbs)
    Float.scaleB (Float.ofInt r) low
  | some _, none => if y.isNaN then y else x
  | none, _ => 0.0 / 0.0

/-- The remainder, moved by the divisor if the two numbers differ in sign. -/
def modulo (x y : Float) : Float :=
  let r := remainder x y
  if r != 0 && decide (x < 0) != decide (y < 0) then r + y else r

end Double

namespace Datum

def isTrue : Datum → Bool
  | nothing => false
  | bool b => b
  | int n => n != 0
  | float x => x != 0
  | text t => !t.isEmpty
  | list items | tuple items => !items.isEmpty
  | builtin _ => true

/-- The value of an index, count or base, which must fit 32 bits. -/
def small? : Datum → Option Int
  | int n => if -0x80000000 ≤ n ∧ n < 0x80000000 then some n else none
  | _ => none

end Datum

def Comparison.holds (c : Comparison) (o : Ordering) : Bool :=
  match c with
  | equal => o == .eq
  | notEqual => o != .eq
  | less => o == .lt
  | greater => o == .gt
  | lessEqual => o != .gt
  | greaterEqual => o != .lt

/-- What a comparison gives for values that are equal or not, but have no order. -/
def Comparison.unordered? (c : Comparison) (same : Bool) : Option Bool :=
  match c with
  | equal => some same
  | notEqual => some !same
  | _ => none

namespace Datum

def compareItems (compare : Comparison → Datum → Datum → Option Bool) (c : Comparison) :
    List Datum → List Datum → Option Bool
  | x :: xs, y :: ys =>
    match compare .equal x y with
    | some true => compareItems compare c xs ys
    | some false => if c = .equal then some false else if c = .notEqual then some true else compare c x y
    | none => none
  | xs, ys => some (c.holds (Ord.compare xs.length ys.length))

/-- Sequences of different length are unequal without a look at their items. -/
def compareSequences {α : Type} (compare : List α → List α → Option Bool) (c : Comparison)
    (xs ys : Repeated α) : Option Bool :=
  if xs.length ≠ ys.length ∧ c = .equal then some false
  else if xs.length ≠ ys.length ∧ c = .notEqual then some true
  else compare xs.toList ys.toList

/-- Compares two values nested at most `depth` deep. Values of different kinds are unequal and
have no order, but integers and doubles compare by value. -/
def compare : Nat → Comparison → Datum → Datum → Option Bool
  | 0, _, _, _ => none
  | depth + 1, c, x, y =>
    match x, y with
    | int m, int n => some (c.holds (Ord.compare m n))
    | int m, float y => some (c.holds (Double.compareInt m y))
    | float x, int n => some (c.holds (Double.compareInt n x).swap)
    | float x, float y => some (c.holds (Double.compareDouble x y))
    | bool a, bool b => some (c.holds (Ord.compare a.toNat b.toNat))
    | text s, text t => compareSequences (fun s t => some (c.holds (Ord.compare s t))) c s t
    | list xs, list ys => compareSequences (compareItems (compare depth) c) c xs ys
    | tuple xs, tuple ys => compareSequences (compareItems (compare depth) c) c xs ys
    | nothing, nothing => c.unordered? true
    | builtin f, builtin g => c.unordered? (f == g)
    | _, _ => c.unordered? false

def compareDepth : Nat := 10

def compare? (c : Comparison) (x y : Datum) : Option Bool := compare compareDepth c x y

def contains? (x : Datum) : List Datum → Option Bool
  | [] => some false
  | y :: ys =>
    match compare? .equal y x with
    | some true => some true
    | some false => contains? x ys
    | none => none

def occursIn (needle : Text) : Text → Bool
  | [] => needle.isEmpty
  | b :: rest => needle.isPrefixOf (b :: rest) || occursIn needle rest

/-- Whether one of the items of a repeated sequence equals a value; one unit shows it. -/
def repeats? (x : Datum) (ys : Repeated Datum) : Option Bool :=
  if ys.isEmpty then some false else contains? x ys.unit

def member? (x y : Datum) : Option Bool :=
  match x, y with
  | x, list ys => repeats? x ys
  | x, tuple ys => repeats? x ys
  | text s, text t => some (occursIn s.toList t.toList)
  | _, _ => none

/-- Arithmetic on doubles, an integer beside a double being turned into one. -/
def onDoubles? (f : Float → Float → Option Float) (x y : Datum) : Option Datum :=
  match x, y with
  | float x, float y => (f x y).map float
  | float x, int n => (Double.ofInt? n).bind fun y => (f x y).map float
  | int m, float y => (Double.ofInt? m).bind fun x => (f x y).map float
  | int m, int n =>
    (Double.ofInt? m).bind fun x => (Double.ofInt? n).bind fun y => (f x y).map float
  | _, _ => none

def repeatLimit : Nat := 0x40000000

/-- A sequence repeated; nothing for a count below one. An empty sequence takes any count. -/
def repeat? {α : Type} (items : Repeated α) (count : Datum) : Option (Repeated α) :=
  match count with
  | int _ =>
    if items.isEmpty then some items
    else match count.small? with
      | some n => if items.length * n.toNat < repeatLimit then some (items.times n.toNat) else none
      | none => none
  | _ => none

def add? (x y : Datum) : Option Datum :=
  match x, y with
  | int m, int n => some (int (m + n))
  | text s, text t => some (text (s.append t))
  | list xs, list ys => some (list (xs.append ys))
  | tuple xs, tuple ys => some (tuple (xs.append ys))
  | x, y => onDoubles? (fun a b => some (a + b)) x y

def subtract? (x y : Datum) : Option Datum :=
  match x, y with
  | int m, int n => some (int (m - n))
  | x, y => onDoubles? (fun a b => some (a - b)) x y

def multiply? (x y : Datum) : Option Datum :=
  match x, y with
  | int m, int n => some (int (m * n))
  | text s, n => (repeat? s n).map text
  | n, text s => (repeat? s n).map text
  | list xs, n => (repeat? xs n).map list
  | n, list xs => (repeat? xs n).map list
  | tuple xs, n => (repeat? xs n).map tuple
  | n, tuple xs => (repeat? xs n).map tuple
  | x, y => onDoubles? (fun a b => some (a * b)) x y

def divide? (x y : Datum) : Option Datum :=
  onDoubles? (fun a b => if b == 0 then none else some (a / b)) x y

def floorDivide? (x y : Datum) : Option Datum :=
  match x, y with
  | int m, int n => if n = 0 then none else some (int (m.fdiv n))
  | x, y => onDoubles? (fun a b => if b == 0 then none else some (a / b).floor) x y

def modulo? (x y : Datum) : Option Datum :=
  match x, y with
  | int m, int n => if n = 0 then none else some (int (m.fmod n))
  | x, y => onDoubles? (fun a b => if b == 0 then none else some (Double.modulo a b)) x y

def onInts? (f : Int → Int → Option Int) (x y : Datum) : Option Datum :=
  match x, y with
  | int m, int n => (f m n).map int
  | _, _ => none

def shiftCount? (count : Datum) : Option Nat :=
  match count.small? with
  | some n => if 0 ≤ n then some n.toNat else none
  | none => none

def shiftLeft? (x count : Datum) : Option Datum :=
  match x, shiftCount? count with
  | int m, some n => if n < 512 then some (int (Bits.shiftLeft m n)) else none
  | _, _ => none

def shiftRight? (x count : Datum) : Option Datum :=
  match x, shiftCount? count with
  | int m, some n => some (int (m >>> n))
  | _, _ => none

def binary? : BinaryOp → Datum → Datum → Option Datum
  | .add => add?
  | .subtract => subtract?
  | .multiply => multiply?
  | .divide => divide?
  | .floorDivide => floorDivide?
  | .modulo => modulo?
  | .and => onInts? fun m n => some (Bits.and m n)
  | .or => onInts? fun m n => some (Bits.or m n)
  | .xor => onInts? fun m n => some (Bits.xor m n)
  | .shiftLeft => shiftLeft?
  | .shiftRight => shiftRight?

def unary? (op : UnaryOp) (x : Datum) : Option Datum :=
  match op, x with
  | .plus, int n => some (int n)
  | .plus, float x => some (float x)
  | .minus, int n => some (int (-n))
  | .minus, float x => some (float (-x))
  | .invert, int n => some (int (Bits.not n))
  | _, _ => none

/-- The item at a position, which counts from the end if it is negative. -/
def item? {α : Type} (items : Repeated α) (position : Datum) : Option α :=
  match position.small? with
  | some n =>
    let i := if n < 0 then n + items.length else n
    if 0 ≤ i then items.get? i.toNat else none
  | none => none

def index? (x position : Datum) : Option Datum :=
  match x with
  | text t => (item? t position).map fun b => text (.once [b])
  | list items => item? items position
  | tuple items => item? items position
  | _ => none

end Datum
end Asm16.Constant
