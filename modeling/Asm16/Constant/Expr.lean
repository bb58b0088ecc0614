import Asm16.Constant.Token

/-! Constant expressions and their grammar. From loose to tight: conditional, `or`, `and`, `not`,
comparisons, `|`, `^`, `&`, shifts, sums, products, signs. Comparisons do not chain. -/

namespace Asm16.Constant

inductive UnaryOp where
  | plus | minus | invert
  deriving DecidableEq, Repr

inductive BinaryOp where
  | add | subtract | multiply | divide | floorDivide | modulo
  | and | or | xor | shiftLeft | shiftRight
  deriving DecidableEq, Repr

inductive Comparison where
  | equal | notEqual | less | greater | lessEqual | greaterEqual
  deriving DecidableEq, Repr

inductive Expr where
  | int (n : Nat)
  | float (mantissa : Nat) (exponent : Int)
  | text (t : Text)
  | name (t : Text)
  | list (items : List Expr)
  | tuple (items : List Expr)
  | unary (op : UnaryOp) (e : Expr)
  | binary (op : BinaryOp) (left right : Expr)
  | compare (c : Comparison) (left right : Expr)
  | member (left right : Expr)
  | not (e : Expr)
  | both (left right : Expr)
  | either (left right : Expr)
  | conditional (condition whenTrue whenFalse : Expr)
  | index (e position : Expr)
  | call (function : Expr) (arguments : List Expr)
  | attribute (e : Expr)
  deriving Repr

inductive Operator where
  | either
  | both
  | compare (c : Comparison)
  | member
  | notMember
  | binary (op : BinaryOp)
  deriving DecidableEq, Repr

namespace Operator

/-- How tightly an operator binds. Level 2 is that of `not`. -/
def level : Operator → Nat
  | either => 0
  | both => 1
  | compare _ | member | notMember => 3
  | binary .or => 4
  | binary .xor => 5
  | binary .and => 6
  | binary .shiftLeft | binary .shiftRight => 7
  | binary .add | binary .subtract => 8
  | binary _ => 9

/-- Whether an operator refuses another one of its level beside it. -/
def standsAlone (op : Operator) : Bool := op.level == 3

def apply (op : Operator) (left right : Expr) : Expr :=
  match op with
  | either => .either left right
  | both => .both left right
  | compare c => .compare c left right
  | member => .member left right
  | notMember => .not (.member left right)
  | binary b => .binary b left right

def ofSymbol? : Symbol → Option Operator
  | .wordOr => some either
  | .wordAnd => some both
  | .wordIn => some member
  | .equal => some (compare .equal)
  | .notEqual => some (compare .notEqual)
  | .less => some (compare .less)
  | .greater => some (compare .greater)
  | .lessEqual => some (compare .lessEqual)
  | .greaterEqual => some (compare .greaterEqual)
  | .bar => some (binary .or)
  | .caret => some (binary .xor)
  | .ampersand => some (binary .and)
  | .shiftLeft => some (binary .shiftLeft)
  | .shiftRight => some (binary .shiftRight)
  | .plus => some (binary .add)
  | .minus => some (binary .subtract)
  | .star => some (binary .multiply)
  | .slash => some (binary .divide)
  | .doubleSlash => some (binary .floorDivide)
  | .percent => some (binary .modulo)
  | _ => none

def next? : List Token → Option (Operator × List Token)
  | .symbol .wordNot :: .symbol .wordIn :: rest => some (notMember, rest)
  | .symbol s :: rest => (ofSymbol? s).map fun op => (op, rest)
  | _ => none

end Operator

def UnaryOp.ofSymbol? : Symbol → Option UnaryOp
  | .plus => some plus
  | .minus => some minus
  | .tilde => some invert
  | _ => none

def argumentLimit : Nat := 255

def atClosing : List Token → Bool
  | [] => true
  | .symbol .closeParen :: _ => true
  | .symbol .closeBracket :: _ => true
  | _ => false

mutual

def parseTest : Nat → List Token → Option (Expr × List Token)
  | 0, _ => none
  | fuel + 1, ts =>
    match parseLevel fuel 0 ts with
    | some (whenTrue, .symbol .wordIf :: rest) =>
      match parseLevel fuel 0 rest with
      | some (condition, .symbol .wordElse :: rest) =>
        match parseTest fuel rest with
        | some (whenFalse, rest) => some (.conditional condition whenTrue whenFalse, rest)
        | none => none
      | _ => none
    | found => found

/-- An expression whose operators all bind at least as tightly as `level`. -/
def parseLevel : Nat → Nat → List Token → Option (Expr × List Token)
  | 0, _, _ => none
  | fuel + 1, level, ts =>
    match ts with
    | .symbol .wordNot :: rest =>
      if level ≤ 2 then
        match parseLevel fuel 2 rest with
        | some (e, rest) => parseOperators fuel level false (.not e) rest
        | none => none
      else none
    | _ =>
      match parseSuffixed fuel ts with
      | some (e, rest) => parseOperators fuel level false e rest
      | none => none

/-- The operators and right sides that follow `left`; `alone` is set once one of them was a
comparison. -/
def parseOperators : Nat → Nat → Bool → Expr → List Token → Option (Expr × List Token)
  | 0, _, _, _, _ => none
  | fuel + 1, level, alone, left, ts =>
    match Operator.next? ts with
    | none => if ts.head? = some (.symbol .wordNot) then none else some (left, ts)
    | some (op, rest) =>
      if op.level < level then some (left, ts)
      else if alone && op.standsAlone then none
      else match parseLevel fuel (op.level + 1) rest with
        | some (right, rest) =>
          parseOperators fuel level (alone || op.standsAlone) (op.apply left right) rest
        | none => none

def parseSuffixed : Nat → List Token → Option (Expr × List Token)
  | 0, _ => none
  | fuel + 1, ts =>
    match parsePrimary fuel ts with
    | some (e, rest) => parseSuffixes fuel e rest
    | none => none

def parseSuffixes : Nat → Expr → List Token → Option (Expr × List Token)
  | 0, _, _ => none
  | fuel + 1, e, ts =>
    match ts with
    | .symbol .dot :: .name _ :: rest => parseSuffixes fuel (.attribute e) rest
    | .symbol .dot :: _ => none
    | .symbol .openBracket :: rest =>
      match parseExpression fuel false rest with
      | some (position, .symbol .closeBracket :: rest) => parseSuffixes fuel (.index e position) rest
      | _ => none
    | .symbol .openParen :: .symbol .closeParen :: rest => parseSuffixes fuel (.call e []) rest
    | .symbol .openParen :: rest =>
      match parseTest fuel rest with
      | some (argument, rest) =>
        match parseMore fuel true [argument] rest with
        | some (arguments, .symbol .closeParen :: rest) =>
          if arguments.length ≤ argumentLimit then parseSuffixes fuel (.call e arguments) rest else none
        | _ => none
      | none => none
    | _ => some (e, ts)

def parsePrimary : Nat → List Token → Option (Expr × List Token)
  | 0, _ => none
  | fuel + 1, ts =>
    match ts with
    | .int n :: rest => some (.int n, rest)
    | .float m x :: rest => some (.float m x, rest)
    | .text t :: rest => some (.text t, rest)
    | .name t :: rest => some (.name t, rest)
    | .symbol .openBracket :: .symbol .closeBracket :: rest => some (.list [], rest)
    | .symbol .openBracket :: rest =>
      match parseTest fuel rest with
      | some (item, rest) =>
        match parseMore fuel true [item] rest with
        | some (items, .symbol .closeBracket :: rest) => some (.list items, rest)
        | _ => none
      | none => none
    | .symbol .openParen :: .symbol .closeParen :: rest => some (.tuple [], rest)
    | .symbol .openParen :: rest =>
      match parseExpression fuel true rest with
      | some (e, .symbol .closeParen :: rest) => some (e, rest)
      | _ => none
    | .symbol s :: rest =>
      match UnaryOp.ofSymbol? s with
      | some op =>
        match parseSuffixed fuel rest with
        | some (e, rest) => some (.unary op e, rest)
        | none => none
      | none => none
    | [] => none

def parseExpression : Nat → Bool → List Token → Option (Expr × List Token)
  | 0, _, _ => none
  | fuel + 1, trailing, ts =>
    match parseTest fuel ts with
    | some (e, .symbol .comma :: rest) =>
      match parseMore fuel trailing [e] (.symbol .comma :: rest) with
      | some (items, rest) => some (.tuple items, rest)
      | none => none
    | found => found

/-- The items that follow, each after a comma; `items` holds those before in reverse. A comma at
the end is allowed only if `trailing` is set. -/
def parseMore : Nat → Bool → List Expr → List Token → Option (List Expr × List Token)
  | 0, _, _, _ => none
  | fuel + 1, trailing, items, ts =>
    match ts with
    | .symbol .comma :: rest =>
      if atClosing rest then (if trailing then some (items.reverse, rest) else none)
      else match parseTest fuel rest with
        | some (item, rest) => parseMore fuel trailing (item :: items) rest
        | none => none
    | _ => some (items.reverse, ts)

end

def Expr.ofTokens? (ts : List Token) : Option Expr :=
  -- No chain of calls above takes more than eight steps to a token, which bounds the fuel.
  match parseExpression (8 * ts.length + 16) false ts with
  | some (e, []) => some e
  | _ => none

def Expr.parse? (source : Text) : Option Expr :=
  match tokens? source with
  | some ts => Expr.ofTokens? ts
  | none => none

mutual

def Expr.namesOnto (after : List Text) : Expr → List Text
  | .int _ | .float _ _ | .text _ => after
  | .name t => t :: after
  | .list items | .tuple items => Expr.namesOfOnto after items
  | .unary _ e | .not e | .attribute e => e.namesOnto after
  | .binary _ l r | .compare _ l r | .member l r | .both l r | .either l r =>
    l.namesOnto (r.namesOnto after)
  | .conditional c t f => c.namesOnto (t.namesOnto (f.namesOnto after))
  | .index e position => e.namesOnto (position.namesOnto after)
  | .call function arguments => function.namesOnto (Expr.namesOfOnto after arguments)

def Expr.namesOfOnto (after : List Text) : List Expr → List Text
  | [] => after
  | e :: rest => e.namesOnto (Expr.namesOfOnto after rest)

end

def Expr.names (e : Expr) : List Text := e.namesOnto []

end Asm16.Constant
