import Std.Data.TreeMap
import Asm16.Constant.Builtin

/-! Evaluation of constant expressions. A name stands for a predefined constant, or else for a
value that is always there. The name `rc` is the one the result is given to: it hides any constant
of that name and has no value yet. -/

namespace Asm16.Constant

abbrev Constants := Std.TreeMap Text Int

def resultName : Text := ascii "rc"

/-- The functions that exist but are of no use in a constant. -/
def otherFunctions : List Text :=
  [ascii "any", ascii "all", ascii "bytes", ascii "chr", ascii "dict", ascii "dir", ascii "enumerate",
    ascii "fail", ascii "float", ascii "getattr", ascii "hasattr", ascii "hash", ascii "list", ascii "print",
    ascii "range", ascii "repr", ascii "reversed", ascii "sorted", ascii "str", ascii "tuple", ascii "type",
    ascii "zip"]

def universal? (name : Text) : Option Datum :=
  if name = ascii "None" then some .nothing
  else if name = ascii "True" then some (.bool true)
  else if name = ascii "False" then some (.bool false)
  else if name = ascii "abs" then some (.builtin .abs)
  else if name = ascii "bool" then some (.builtin .bool)
  else if name = ascii "int" then some (.builtin .int)
  else if name = ascii "len" then some (.builtin .len)
  else if name = ascii "max" then some (.builtin .max)
  else if name = ascii "min" then some (.builtin .min)
  else if name = ascii "ord" then some (.builtin .ord)
  else if otherFunctions.contains name then some (.builtin (.other name))
  else none

def lookup? (constants : Constants) (name : Text) : Option Datum :=
  if name = resultName then none
  else match constants[name]? with
    | some n => some (.int n)
    | none => universal? name

def isKnown (constants : Constants) (name : Text) : Bool :=
  name = resultName || (lookup? constants name).isSome

mutual

/-- The value of an expression. Only the side of a conditional, `and` or `or` that decides is
evaluated. -/
def Expr.eval? (constants : Constants) : Expr → Option Datum
  | .int n => some (.int n)
  | .float m x => some (.float (double m x))
  | .text t => some (.text (.once t))
  | .name t => lookup? constants t
  | .list items => (Expr.evalAll? constants items).map fun xs => .list (.once xs)
  | .tuple items => (Expr.evalAll? constants items).map fun xs => .tuple (.once xs)
  | .unary op e => (Expr.eval? constants e).bind (Datum.unary? op)
  | .binary op l r =>
    match Expr.eval? constants l, Expr.eval? constants r with
    | some x, some y => Datum.binary? op x y
    | _, _ => none
  | .compare c l r =>
    match Expr.eval? constants l, Expr.eval? constants r with
    | some x, some y => (Datum.compare? c x y).map .bool
    | _, _ => none
  | .member l r =>
    match Expr.eval? constants l, Expr.eval? constants r with
    | some x, some y => (Datum.member? x y).map .bool
    | _, _ => none
  | .not e => (Expr.eval? constants e).map fun x => .bool !x.isTrue
  | .both l r =>
    match Expr.eval? constants l with
    | some x => if x.isTrue then Expr.eval? constants r else some x
    | none => none
  | .either l r =>
    match Expr.eval? constants l with
    | some x => if x.isTrue then some x else Expr.eval? constants r
    | none => none
  | .conditional c t f =>
    match Expr.eval? constants c with
    | some x => if x.isTrue then Expr.eval? constants t else Expr.eval? constants f
    | none => none
  | .index e position =>
    match Expr.eval? constants e, Expr.eval? constants position with
    | some x, some i => Datum.index? x i
    | _, _ => none
  | .call function arguments =>
    match Expr.eval? constants function, Expr.evalAll? constants arguments with
    | some (.builtin f), some xs => f.call? xs
    | _, _ => none
  | .attribute _ => none

def Expr.evalAll? (constants : Constants) : List Expr → Option (List Datum)
  | [] => some []
  | e :: rest =>
    match Expr.eval? constants e, Expr.evalAll? constants rest with
    | some x, some xs => some (x :: xs)
    | _, _ => none

end

/-- The integer that the text of an expression stands for. Every name in it must be known, also
where it is not evaluated. -/
def evaluate? (constants : Constants) (source : Text) : Option Int :=
  match Expr.parse? source with
  | some e =>
    if e.names.all (isKnown constants) then
      match e.eval? constants with
      | some (.int n) => some n
      | _ => none
    else none
  | none => none

/-- Evaluation without predefined constants. -/
def closed : Text → Option Int := evaluate? ∅

end Asm16.Constant
