import Asm16.Text.Basic

/-! Lines of a text. A newline ends a line, one carriage return before the end is dropped, and
nothing after the last newline is no line. A line of 65536 bytes or more cannot be read: the
lines before it are delivered and reading stops there. -/

namespace Asm16.Text

def lineLimit : Nat := 65536

structure Lines where
  lines : List Text
  overlong : Bool
  deriving DecidableEq, Repr

def endLine : Text → Text
  | [] => []
  | b :: rest => if b = carriageReturn then rest.reverse else (b :: rest).reverse

/-- Reads on from a line whose `count` bytes so far are `line`, in reverse. -/
def linesFrom (line : Text) (count : Nat) (done : List Text) : Text → Lines
  | [] =>
    match line with
    | [] => ⟨done.reverse, false⟩
    | _ :: _ => ⟨(endLine line :: done).reverse, false⟩
  | b :: rest =>
    if b = newline then linesFrom [] 0 (endLine line :: done) rest
    else if count + 1 < lineLimit then linesFrom (b :: line) (count + 1) done rest
    else ⟨done.reverse, true⟩

def lines (t : Text) : Lines := linesFrom [] 0 [] t

end Asm16.Text
