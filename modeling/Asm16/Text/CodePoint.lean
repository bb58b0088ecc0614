import Asm16.Text.Basic

/-! Text seen as UTF-8. Every byte belongs to exactly one unit: a well formed code point of one to
four bytes, or a single byte that starts none. -/

namespace Asm16.Text

structure CodePoint where
  bytes : Text
  /-- The scalar value, absent for a byte that is not UTF-8. -/
  scalar? : Option Nat
  deriving DecidableEq, Repr

namespace CodePoint

/-- The scalar value; a byte that is not UTF-8 counts as U+FFFD. -/
def scalar (c : CodePoint) : Nat := c.scalar?.getD 0xfffd

def repaired (c : CodePoint) : Text := if c.scalar?.isSome then c.bytes else [0xef, 0xbf, 0xbd]

def isTail (b : UInt8) : Bool := 0x80 ≤ b && b ≤ 0xbf

def isSecondOfThree (lead b : UInt8) : Bool :=
  if lead = 0xe0 then 0xa0 ≤ b && b ≤ 0xbf
  else if lead = 0xed then 0x80 ≤ b && b ≤ 0x9f
  else isTail b

def isSecondOfFour (lead b : UInt8) : Bool :=
  if lead = 0xf0 then 0x90 ≤ b && b ≤ 0xbf
  else if lead = 0xf4 then 0x80 ≤ b && b ≤ 0x8f
  else isTail b

def low6 (b : UInt8) : Nat := b.toNat % 64

/-- The unit that starts with `lead`, and what follows it. -/
def next (lead : UInt8) (rest : Text) : CodePoint × Text :=
  let alone : CodePoint × Text := (⟨[lead], none⟩, rest)
  if lead < 0x80 then (⟨[lead], some lead.toNat⟩, rest)
  else if 0xc2 ≤ lead && lead ≤ 0xdf then
    match rest with
    | b :: rest' =>
      if isTail b then (⟨[lead, b], some (lead.toNat % 32 * 64 + low6 b)⟩, rest') else alone
    | _ => alone
  else if 0xe0 ≤ lead && lead ≤ 0xef then
    match rest with
    | b :: c :: rest' =>
      if isSecondOfThree lead b && isTail c then
        (⟨[lead, b, c], some (lead.toNat % 16 * 4096 + low6 b * 64 + low6 c)⟩, rest')
      else alone
    | _ => alone
  else if 0xf0 ≤ lead && lead ≤ 0xf4 then
    match rest with
    | b :: c :: d :: rest' =>
      if isSecondOfFour lead b && isTail c && isTail d then
        (⟨[lead, b, c, d],
          some (lead.toNat % 8 * 262144 + low6 b * 4096 + low6 c * 64 + low6 d)⟩, rest')
      else alone
    | _ => alone
  else alone

theorem length_next_le (lead : UInt8) (rest : Text) : (next lead rest).2.length ≤ rest.length := by
  unfold next
  dsimp only
  repeat' split
  all_goals simp <;> omega

end CodePoint

def codePointsFrom (done : List CodePoint) : Text → List CodePoint
  | [] => done.reverse
  | b :: rest => codePointsFrom ((CodePoint.next b rest).1 :: done) (CodePoint.next b rest).2
termination_by t => t.length
decreasing_by exact Nat.lt_succ_of_le (CodePoint.length_next_le b rest)

def codePoints (t : Text) : List CodePoint := codePointsFrom [] t

def isAscii (t : Text) : Bool := t.all (· < 0x80)

def inRanges (table : List (Nat × Nat)) (n : Nat) : Bool := table.any fun r => r.1 ≤ n && n ≤ r.2

end Asm16.Text
