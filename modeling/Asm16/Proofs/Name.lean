import Asm16.Machine.Name
import Asm16.Proofs.UpperCase
import Mathlib.Tactic.IntervalCases

/-! Recognition of names. The name tables share no entry, so a word names at most one register,
special operand or instruction, and each of these is recognised by its own text. -/

namespace Asm16

namespace Register

theorem isSome_ofName? (word : Text) : (ofName? word).isSome ↔ Text.upper word ∈ names := by
  simp [ofName?]

theorem index_lt_of_ofName? {word : Text} {reg : Register} (h : ofName? word = some reg) :
    reg.index < 8 := by
  obtain ⟨n, hn, rfl⟩ := Option.map_eq_some_iff.1 h
  obtain ⟨hlt, _⟩ := List.idxOf?_eq_some_iff.1 hn
  change n < 8 at hlt
  interval_cases n <;> decide

theorem ofName?_text {reg : Register} (h : reg.index < 8) : ofName? reg.text = some reg := by
  obtain ⟨i⟩ := reg
  have hi : i.toNat < 8 := h
  rw [← UInt8.ofNat_toNat (x := i)]
  interval_cases i.toNat <;> decide

end Register

namespace Special

theorem isSome_ofName? (word : Text) : (ofName? word).isSome ↔ Text.upper word ∈ names := by
  simp [ofName?]

theorem isNamed_of_ofName? {word : Text} {sp : Special} (h : ofName? word = some sp) :
    sp.isNamed = true := by
  obtain ⟨n, hn, rfl⟩ := Option.map_eq_some_iff.1 h
  obtain ⟨hlt, _⟩ := List.idxOf?_eq_some_iff.1 hn
  change n < 6 at hlt
  interval_cases n <;> decide

theorem ofName?_text {sp : Special} (h : sp.isNamed = true) : ofName? sp.text = some sp := by
  obtain ⟨c⟩ := sp
  have hc : 0x18 ≤ c.toNat ∧ c.toNat ≤ 0x1d := by
    simpa [isNamed, first, last, UInt8.le_iff_toNat_le] using h
  obtain ⟨hlow, hhigh⟩ := hc
  rw [← UInt8.ofNat_toNat (x := c)]
  interval_cases c.toNat <;> decide

theorem register_ofName?_eq_none {word : Text} {sp : Special} (h : ofName? word = some sp) :
    Register.ofName? word = none := by
  have hs := (isSome_ofName? word).1 (by rw [h]; rfl)
  rw [← Option.not_isSome_iff_eq_none, Register.isSome_ofName?]
  have hdisjoint : ∀ name ∈ names, name ∉ Register.names := by decide
  exact hdisjoint _ hs

end Special

namespace BasicOp

theorem isSome_ofName? (word : Text) : (ofName? word).isSome ↔ Text.upper word ∈ names := by
  simp [ofName?]

theorem code_of_ofName? {word : Text} {op : BasicOp} (h : ofName? word = some op) :
    1 ≤ op.code ∧ op.code ≤ 15 := by
  obtain ⟨n, hn, rfl⟩ := Option.map_eq_some_iff.1 h
  obtain ⟨hlt, _⟩ := List.idxOf?_eq_some_iff.1 hn
  change n < 15 at hlt
  interval_cases n <;> decide

theorem ofName?_text {op : BasicOp} (h : 1 ≤ op.code ∧ op.code ≤ 15) : ofName? op.text = some op := by
  obtain ⟨c⟩ := op
  obtain ⟨hlow, hhigh⟩ : 1 ≤ c.toNat ∧ c.toNat ≤ 15 := h
  rw [← UInt8.ofNat_toNat (x := c)]
  interval_cases c.toNat <;> decide

end BasicOp

namespace NonBasicOp

theorem ofName?_eq_some_iff {word : Text} {op : NonBasicOp} :
    ofName? word = some op ↔ Text.upper word = ascii "JSR" ∧ op = jsr := by
  unfold ofName?
  split <;> simp_all [eq_comm]

theorem ofName?_text_jsr : ofName? jsr.text = some jsr := by decide

end NonBasicOp

theorem BasicOp.upper_ne_of_ofName? {word : Text} {op : BasicOp} (h : ofName? word = some op) :
    Text.upper word ≠ ascii "DAT" ∧ Text.upper word ≠ ascii "JSR" := by
  have hmem := (isSome_ofName? word).1 (by rw [h]; rfl)
  have hnames : ∀ name ∈ names, name ≠ ascii "DAT" ∧ name ≠ ascii "JSR" := by decide
  exact hnames _ hmem

theorem isReserved_iff (word : Text) :
    isReserved word = true ↔ Text.upper word ∈ Register.names ∨ Text.upper word ∈ Special.names := by
  rw [isReserved, Bool.or_eq_true, Register.isSome_ofName?, Special.isSome_ofName?]

theorem isReserved_of_register {word : Text} {reg : Register} (h : Register.ofName? word = some reg) :
    isReserved word = true := by
  rw [isReserved, h]
  rfl

theorem isReserved_of_special {word : Text} {sp : Special} (h : Special.ofName? word = some sp) :
    isReserved word = true := by
  rw [isReserved, h, Option.isSome_some, Bool.or_true]

theorem not_isReserved_of_head {b : UInt8} (hb : b < 65) (rest : Text) :
    isReserved (b :: rest) = false := by
  have hascii : b < 0x80 := UInt8.lt_trans hb (by decide)
  have hup : ∀ b : UInt8, b < 65 → Text.upperByte b = b := Text.forall_byte (by decide +kernel)
  have hnames : (Register.names ++ Special.names).all (fun name => name.head?.all (65 ≤ ·)) = true := by
    decide
  rw [Bool.eq_false_iff, ne_eq, isReserved_iff, Text.upper_cons hascii, hup b hb, ← List.mem_append]
  intro hmem
  have hle : 65 ≤ b := by simpa using List.all_eq_true.1 hnames _ hmem
  exact absurd hb (UInt8.not_lt.2 hle)

end Asm16
