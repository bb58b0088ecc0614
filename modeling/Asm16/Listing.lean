import Asm16.Machine.Instruction

/-! Disassembly. A word sequence is walked from address zero; each instruction gives a listing,
words that are no instruction are skipped, and running out of words ends the walk with an error. -/

namespace Asm16

structure Listing where
  address : Nat
  words : List UInt16
  instruction : Instruction
  deriving DecidableEq, Repr

def Listing.text (l : Listing) : Text := l.instruction.text

namespace Instruction

theorem length_of_decode_operand {field : UInt8} {words rest : List UInt16} {a : Operand}
    (h : Operand.decode field words = some (a, rest)) : rest.length ≤ words.length := by
  unfold Operand.decode at h
  split at h
  · split at h <;> simp_all
  · simp_all

theorem length_of_decode {words rest : List UInt16} {inst : Instruction}
    (h : decode words = .instruction inst rest) : rest.length < words.length := by
  cases words with
  | nil => simp [decode] at h
  | cons word tail =>
    simp only [decode] at h
    split at h
    · split at h
      · contradiction
      · rename_i ha
        have := length_of_decode_operand ha
        split at h
        · contradiction
        · rename_i hb
          have := length_of_decode_operand hb
          injection h with _ hr
          simp only [List.length_cons, ← hr]
          omega
    · split at h
      · split at h
        · contradiction
        · rename_i ha
          have := length_of_decode_operand ha
          injection h with _ hr
          simp only [List.length_cons, ← hr]
          omega
      · contradiction

theorem length_of_decode_skipped {words rest : List UInt16}
    (h : decode words = .skipped rest) : rest.length < words.length := by
  unfold decode at h
  split at h
  · simp at h
  · dsimp only at h
    repeat' split at h
    all_goals simp_all

end Instruction

/-- One step of a walk: a listing, or the error that ends it. -/
abbrev WalkItem := Except DecodeError Listing

/-- Walks on at an address; `done` holds the items so far in reverse. -/
def walkFrom (address : Nat) (done : List WalkItem) (words : List UInt16) : List WalkItem :=
  if words.isEmpty then done.reverse
  else match _h : Instruction.decode words with
    | .instruction inst rest =>
      walkFrom (address + inst.size) (.ok ⟨address, words.take inst.size, inst⟩ :: done) rest
    | .skipped rest => walkFrom (address + 1) done rest
    | .truncated => (.error ⟨address, .wordsTruncated⟩ :: done).reverse
termination_by words.length
decreasing_by
  · exact Instruction.length_of_decode _h
  · exact Instruction.length_of_decode_skipped _h

def walk (words : List UInt16) : List WalkItem := walkFrom 0 [] words

def textsFrom (texts : List Text) : List WalkItem → Except DecodeError (List Text)
  | [] => .ok texts.reverse
  | .ok listing :: rest => textsFrom (listing.text :: texts) rest
  | .error e :: _ => .error e

def disassemble (words : List UInt16) : Except DecodeError Text :=
  match textsFrom [] (walk words) with
  | .ok texts => .ok (Text.stacked texts)
  | .error e => .error e

end Asm16
