import Asm16.Text.Basic

/-! Tokens of assembly source. A separator byte is a token of its own, `$(` starts an expression
that goes to its closing parenthesis, and any other token is a longest run of bytes in which
neither a separator, nor a blank, nor an expression begins. A semicolon starts a comment. -/

namespace Asm16.Token

def separators : Text := ascii ":,[]+-"

/-- Space, tab, carriage return, vertical tab and form feed. -/
def blanks : Text := [0x20, 0x09, 0x0d, 0x0b, 0x0c]

def isSeparator (b : UInt8) : Bool := separators.contains b

def isBlank (b : UInt8) : Bool := blanks.contains b

def dollar : UInt8 := '$'.toUInt8
def openParen : UInt8 := '('.toUInt8
def closeParen : UInt8 := ')'.toUInt8

def expressionStart : Text := [dollar, openParen]

/-- The rest of an expression up to the parenthesis that closes it, or all of the text if none
does, and what follows. `taken` holds the bytes before in reverse. -/
def expressionFrom (depth : Nat) (taken : Text) : Text → Text × Text
  | [] => (taken.reverse, [])
  | b :: rest =>
    if b = openParen then expressionFrom (depth + 1) (b :: taken) rest
    else if b = closeParen then
      if depth ≤ 1 then ((b :: taken).reverse, rest)
      else expressionFrom (depth - 1) (b :: taken) rest
    else expressionFrom depth (b :: taken) rest

def wordFrom (taken : Text) : Text → Text × Text
  | [] => (taken.reverse, [])
  | b :: rest =>
    if isSeparator b || isBlank b || expressionStart.isPrefixOf (b :: rest) then
      (taken.reverse, b :: rest)
    else wordFrom (b :: taken) rest

theorem length_expressionFrom_le (depth : Nat) (taken t : Text) :
    (expressionFrom depth taken t).2.length ≤ t.length := by
  induction t generalizing depth taken with
  | nil => simp [expressionFrom]
  | cons b rest ih =>
    simp only [expressionFrom]
    repeat' split
    all_goals first
      | exact Nat.le_succ_of_le (ih ..)
      | simp

theorem length_wordFrom_le (taken t : Text) : (wordFrom taken t).2.length ≤ t.length := by
  induction t generalizing taken with
  | nil => simp [wordFrom]
  | cons b rest ih =>
    simp only [wordFrom]
    split
    · simp
    · exact Nat.le_succ_of_le (ih ..)

/-- The tokens of a text without comments; `done` holds those before in reverse. -/
def tokensFrom (done : List Text) : Text → List Text
  | [] => done.reverse
  | b :: rest =>
    if isBlank b then tokensFrom done rest
    else if isSeparator b then tokensFrom ([b] :: done) rest
    else if expressionStart.isPrefixOf (b :: rest) then
      tokensFrom ((expressionFrom 0 [b] rest).1 :: done) (expressionFrom 0 [b] rest).2
    else tokensFrom ((wordFrom [b] rest).1 :: done) (wordFrom [b] rest).2
termination_by t => t.length
decreasing_by
  · simp
  · simp
  · exact Nat.lt_succ_of_le (length_expressionFrom_le ..)
  · exact Nat.lt_succ_of_le (length_wordFrom_le ..)

def ofLine (line : Text) : List Text := tokensFrom [] (Text.before Text.semicolon line)

def ofSource (source : Text) : List (List Text) := (source.splitOn Text.newline).map ofLine

end Asm16.Token
