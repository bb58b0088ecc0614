/-! Sequences held as a unit and the number of times it stands in a row, so that a long repetition
takes no more room than its unit. -/

namespace Asm16.Constant

structure Repeated (α : Type) where
  unit : List α
  count : Nat
  deriving DecidableEq, Repr

namespace Repeated

variable {α : Type}

def once (items : List α) : Repeated α := ⟨items, 1⟩

def toList (r : Repeated α) : List α := (List.replicate r.count r.unit).flatten

def length (r : Repeated α) : Nat := r.unit.length * r.count

def isEmpty (r : Repeated α) : Bool := r.length == 0

def times (r : Repeated α) (n : Nat) : Repeated α := ⟨r.unit, r.count * n⟩

def get? (r : Repeated α) (position : Nat) : Option α :=
  if position < r.length then r.unit[position % r.unit.length]? else none

def append (r s : Repeated α) : Repeated α :=
  if r.isEmpty then s else if s.isEmpty then r else once (r.toList ++ s.toList)

@[simp] theorem toList_once (items : List α) : (once items).toList = items := by
  simp [once, toList]

@[simp] theorem length_toList (r : Repeated α) : r.toList.length = r.length := by
  simp [toList, length, Nat.mul_comm]

end Repeated
end Asm16.Constant
