import Asm16.Text.CodePoint

/-! Fields of a line: the longest pieces without white space. White space is the Unicode property
`White_Space`. -/

namespace Asm16.Text

/-- The code points with the property `White_Space`. -/
def blankRanges : List (Nat × Nat) :=
  [(0x09, 0x0d), (0x20, 0x20), (0x85, 0x85), (0xa0, 0xa0), (0x1680, 0x1680), (0x2000, 0x200a),
    (0x2028, 0x2029), (0x202f, 0x202f), (0x205f, 0x205f), (0x3000, 0x3000)]

def CodePoint.isBlank (c : CodePoint) : Bool := inRanges blankRanges c.scalar

/-- Collects fields; `field` is the one being read and `done` those before it, both in reverse. -/
def fieldsFrom (field : Text) (done : List Text) : List CodePoint → List Text
  | [] => (if field.isEmpty then done else field.reverse :: done).reverse
  | c :: rest =>
    if c.isBlank then
      fieldsFrom [] (if field.isEmpty then done else field.reverse :: done) rest
    else fieldsFrom (c.bytes.reverse ++ field) done rest

def fields (t : Text) : List Text := fieldsFrom [] [] (codePoints t)

end Asm16.Text
