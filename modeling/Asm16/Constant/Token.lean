import Asm16.Text.Digits
import Asm16.Text.Letter

/-! Tokens of constant expressions. Blanks separate tokens, `#` starts a comment, names consist of
letters, digits and underscores. -/

namespace Asm16.Constant

inductive Symbol where
  | plus | minus | star | slash | doubleSlash | percent
  | ampersand | bar | caret | tilde | shiftLeft | shiftRight
  | less | greater | lessEqual | greaterEqual | equal | notEqual
  | openParen | closeParen | openBracket | closeBracket | comma | dot
  | wordAnd | wordOr | wordNot | wordIf | wordElse | wordIn
  deriving DecidableEq, Repr

inductive Token where
  | int (n : Nat)
  /-- A number with a fraction or an exponent: `mantissa` times ten to the `exponent`. -/
  | float (mantissa : Nat) (exponent : Int)
  | text (t : Text)
  | name (t : Text)
  | symbol (s : Symbol)
  deriving DecidableEq, Repr

namespace Token

def operatorWord? (t : Text) : Option Symbol :=
  if t = ascii "and" then some .wordAnd
  else if t = ascii "or" then some .wordOr
  else if t = ascii "not" then some .wordNot
  else if t = ascii "if" then some .wordIf
  else if t = ascii "else" then some .wordElse
  else if t = ascii "in" then some .wordIn
  else none

def forbiddenWords : List Text :=
  [ascii "as", ascii "async", ascii "await", ascii "break", ascii "class", ascii "continue", ascii "def",
    ascii "del", ascii "elif", ascii "except", ascii "finally", ascii "for", ascii "from", ascii "global",
    ascii "import", ascii "is", ascii "lambda", ascii "load", ascii "nonlocal", ascii "pass", ascii "raise",
    ascii "return", ascii "try", ascii "while", ascii "with", ascii "yield"]

def ofWord? (t : Text) : Option Token :=
  match operatorWord? t with
  | some s => some (.symbol s)
  | none => if forbiddenWords.contains t then none else some (.name t)

/-- The symbol at the start of a text and its length. A symbol followed by `=` that would make
another one is refused, and so are the doubled star and the single equals sign. -/
def symbol? : List Char → Option (Symbol × Nat)
  | '<' :: '<' :: '=' :: _ => none
  | '<' :: '<' :: _ => some (.shiftLeft, 2)
  | '<' :: '=' :: _ => some (.lessEqual, 2)
  | '<' :: _ => some (.less, 1)
  | '>' :: '>' :: '=' :: _ => none
  | '>' :: '>' :: _ => some (.shiftRight, 2)
  | '>' :: '=' :: _ => some (.greaterEqual, 2)
  | '>' :: _ => some (.greater, 1)
  | '=' :: '=' :: _ => some (.equal, 2)
  | '!' :: '=' :: _ => some (.notEqual, 2)
  | '/' :: '/' :: '=' :: _ => none
  | '/' :: '/' :: _ => some (.doubleSlash, 2)
  | '*' :: '*' :: _ => none
  | '+' :: rest => single rest .plus
  | '-' :: rest => single rest .minus
  | '*' :: rest => single rest .star
  | '/' :: rest => single rest .slash
  | '%' :: rest => single rest .percent
  | '&' :: rest => single rest .ampersand
  | '|' :: rest => single rest .bar
  | '^' :: rest => single rest .caret
  | '~' :: _ => some (.tilde, 1)
  | '(' :: _ => some (.openParen, 1)
  | ')' :: _ => some (.closeParen, 1)
  | '[' :: _ => some (.openBracket, 1)
  | ']' :: _ => some (.closeBracket, 1)
  | ',' :: _ => some (.comma, 1)
  | '.' :: _ => some (.dot, 1)
  | _ => none
where
  single (rest : List Char) (s : Symbol) : Option (Symbol × Nat) :=
    match rest with
    | '=' :: _ => none
    | _ => some (s, 1)

end Token

def bytesOf (cs : List Text.CodePoint) : Text := cs.flatMap Text.CodePoint.bytes

def charOf (c : Text.CodePoint) : Char := Char.ofNat c.scalar

def isNameStart (c : Text.CodePoint) : Bool :=
  (charOf c).isAlpha || charOf c == '_' || (0x80 ≤ c.scalar && c.isLetter)

def isNamePart (c : Text.CodePoint) : Bool := (charOf c).isDigit || isNameStart c

def digitRun (base : Nat) (cs : List Text.CodePoint) : Text × List Text.CodePoint :=
  let run := cs.span fun c => match c.bytes with
    | [b] => (Text.digitOf? base b).isSome
    | _ => false
  (bytesOf run.1, run.2)

def markedLimit : Nat := 0x8000000000000000

/-- An integer with a base mark. Octal and binary numbers must fit 63 bits. -/
def scanMarked? (base : Nat) (cs : List Text.CodePoint) : Option (Token × List Text.CodePoint) :=
  let run := digitRun base cs
  match Text.read? base run.1 with
  | some n => if base = 16 ∨ n < markedLimit then some (.int n, run.2) else none
  | none => none

def double (mantissa : Nat) (exponent : Int) : Float :=
  Float.ofScientific mantissa (exponent < 0) exponent.natAbs

def floatToken? (digits : Text) (exponent : Int) : Option Token :=
  let significant := digits.dropWhile (· == '0'.toUInt8)
  let magnitude := significant.length + exponent
  if significant.isEmpty ∨ magnitude < -400 then some (.float 0 0)
  else if magnitude > 400 then none
  else match Text.read? 10 significant with
    | some mantissa =>
      if (double mantissa exponent).isInf then none else some (.float mantissa exponent)
    | none => none

def exponentValue (digits : Text) : Nat :=
  -- Once the value has reached ten thousand, further digits do not count.
  digits.foldl (fun n b => if n < 10000 then n * 10 + (b.toNat - 48) else n) 0

def scanExponent? (cs : List Text.CodePoint) : Option (Int × List Text.CodePoint) :=
  let sign := (cs.head?.map charOf).filter fun c => c == '+' || c == '-'
  let run := digitRun 10 (if sign.isSome then cs.drop 1 else cs)
  let n := exponentValue run.1
  if run.1.isEmpty then none
  else some (if sign = some '-' then -(n : Int) else n, run.2)

def scanFloat? (whole : Text) (cs : List Text.CodePoint) : Option (Token × List Text.CodePoint) :=
  let hasPoint := cs.head?.map charOf = some '.'
  let fraction := if hasPoint then digitRun 10 (cs.drop 1) else ([], cs)
  let exponent? :=
    match fraction.2 with
    | e :: rest => if charOf e == 'e' || charOf e == 'E' then scanExponent? rest else some (0, e :: rest)
    | [] => some (0, [])
  match exponent? with
  | none => none
  | some (exponent, rest) =>
    (floatToken? (whole ++ fraction.1) (exponent - fraction.1.length)).map fun token => (token, rest)

/-- A number. A leading zero allows only more zeros, unless a fraction or exponent follows. -/
def scanNumber? (cs : List Text.CodePoint) : Option (Token × List Text.CodePoint) :=
  match (cs.take 2).map charOf with
  | ['0', 'x'] | ['0', 'X'] => scanMarked? 16 (cs.drop 2)
  | ['0', 'o'] | ['0', 'O'] => scanMarked? 8 (cs.drop 2)
  | ['0', 'b'] | ['0', 'B'] => scanMarked? 2 (cs.drop 2)
  | _ =>
    let run := digitRun 10 cs
    match run.2.head?.map charOf with
    | some '.' | some 'e' | some 'E' => scanFloat? run.1 run.2
    | _ =>
      if run.1.head? = some '0'.toUInt8 ∧ run.1.any (· != '0'.toUInt8) then none
      else (Text.read? 10 run.1).map fun n => (.int n, run.2)

/-- The rest of a string up to the quotes that close it. Strings have no escapes and do not go
over a line end; a byte that is not UTF-8 becomes U+FFFD. -/
def scanString? (closing : List Char) (taken : List Text.CodePoint) :
    List Text.CodePoint → Option (Token × List Text.CodePoint)
  | [] => none
  | c :: rest =>
    if ((c :: rest).take closing.length).map charOf = closing then
      some (.text (taken.reverse.flatMap Text.CodePoint.repaired), rest.drop (closing.length - 1))
    else if charOf c == '\\' || charOf c == '\r' || charOf c == '\n' then none
    else scanString? closing (c :: taken) rest

inductive Scanned where
  | token (t : Token) (rest : List Text.CodePoint)
  | blank (rest : List Text.CodePoint)
  | finish
  | refused

def Scanned.of : Option (Token × List Text.CodePoint) → Scanned
  | some (t, rest) => .token t rest
  | none => .refused

def onlyBlank (inComment : Bool) : List Text.CodePoint → Bool
  | [] => true
  | c :: rest =>
    match charOf c with
    | '\x00' => true
    | '\r' => onlyBlank false rest
    | '#' => onlyBlank true rest
    | ' ' | '\t' => onlyBlank inComment rest
    | _ => inComment && onlyBlank true rest

def inLine (c : Text.CodePoint) : Bool := charOf c != '\r' && charOf c != '\x00'

/-- Scans one token or blank. A carriage return ends the expression, but inside brackets or after a
backslash it is a blank. -/
def scanNext (bracketed : Bool) (c : Text.CodePoint) (rest : List Text.CodePoint) : Scanned :=
  let chars := ((c :: rest).take 3).map charOf
  match chars with
  | ' ' :: _ | '\t' :: _ => .blank rest
  | '\r' :: _ => if bracketed then .blank rest else if onlyBlank false rest then .finish else .refused
  | '#' :: _ => .blank (rest.dropWhile inLine)
  | '\x00' :: _ | ['\\'] => .finish
  | '\\' :: '\r' :: _ => .blank (rest.drop 1)
  | ['"', '"', '"'] | ['\'', '\'', '\''] => Scanned.of (scanString? chars [] (rest.drop 2))
  | '"' :: _ => Scanned.of (scanString? ['"'] [] rest)
  | '\'' :: _ => Scanned.of (scanString? ['\''] [] rest)
  | first :: second =>
    if first.isDigit || (first == '.' && (second.head?.map Char.isDigit).getD false) then
      Scanned.of (scanNumber? (c :: rest))
    else if isNameStart c then
      let run := (c :: rest).span isNamePart
      Scanned.of ((Token.ofWord? (bytesOf run.1)).map fun t => (t, run.2))
    else match Token.symbol? chars with
      | some (s, n) => .token (.symbol s) (rest.drop (n - 1))
      | none => .refused
  | [] => .refused

def depthAfter (depth : Nat) : Token → Nat
  | .symbol .openParen | .symbol .openBracket => depth + 1
  | .symbol .closeParen | .symbol .closeBracket => depth - 1
  | _ => depth

/-- Scans tokens until the text ends; every step takes at least one code point, so as many steps
as there are code points are enough. -/
def scanFrom : Nat → Nat → List Token → List Text.CodePoint → Option (List Token)
  | _, _, done, [] => some done.reverse
  | 0, _, _, _ => none
  | steps + 1, depth, done, c :: rest =>
    match scanNext (depth != 0) c rest with
    | .token t rest => scanFrom steps (depthAfter depth t) (t :: done) rest
    | .blank rest => scanFrom steps depth done rest
    | .finish => some done.reverse
    | .refused => none

def tokens? (source : Text) : Option (List Token) :=
  let cs := Text.codePoints source
  scanFrom cs.length 0 [] cs

end Asm16.Constant
