import Asm16.Proofs.Reassembly
import Asm16.Proofs.Visit
import Mathlib.Algebra.Order.BigOperators.Group.List

/-! Canonical word sequences. A listing shows neither the words that were skipped nor whether a small
literal had a word of its own, so assembling it again drops the former and shortens the latter. Both
make the sequence shorter, and a sequence without either comes back word for word. -/

namespace Asm16

/-- Whether an operand is a literal in a word of its own that would fit the operand field. -/
def Operand.isLong : Operand → Bool
  | nextWord value => value.word ≤ shortMax
  | _ => false

def Instruction.isLong (inst : Instruction) : Bool := inst.operands.any Operand.isLong

namespace Operand

theorem compact_of_isLong_eq_false {op : Operand} (h : op.isLong = false) : op.compact = op := by
  cases op with
  | nextWord value =>
    have hlarge : ¬ value.word ≤ shortMax := by simpa [isLong] using h
    exact if_neg hlarge
  | _ => rfl

theorem needsWord_of_isLong {op : Operand} (h : op.isLong = true) :
    op.needsWord = true ∧ op.compact.needsWord = false := by
  cases op with
  | nextWord value =>
    have hsmall : value.word ≤ shortMax := by simpa [isLong] using h
    refine ⟨rfl, ?_⟩
    rw [compact, literal, if_pos hsmall]
    rfl
  | _ => contradiction

end Operand

namespace Instruction

theorem compact_of_isLong_eq_false {inst : Instruction} (h : inst.isLong = false) :
    inst.compact = inst := by
  cases inst with
  | basic op a b =>
    obtain ⟨ha, hb⟩ : a.isLong = false ∧ b.isLong = false := by simpa [isLong, operands] using h
    rw [compact, Operand.compact_of_isLong_eq_false ha, Operand.compact_of_isLong_eq_false hb]
  | nonBasic op a =>
    have ha : a.isLong = false := by simpa [isLong, operands] using h
    rw [compact, Operand.compact_of_isLong_eq_false ha]

theorem size_compact_lt {inst : Instruction} (h : inst.isLong = true) : inst.compact.size < inst.size := by
  have hle : ∀ op : Operand, (if op.compact.needsWord = true then 1 else 0) ≤
      if op.needsWord = true then 1 else 0 := by
    intro op
    split
    · rename_i hcompact
      rw [if_pos (Operand.needsWord_of_compact hcompact)]
    · exact Nat.zero_le _
  have hlt : ∀ op : Operand, op.isLong = true → (if op.compact.needsWord = true then 1 else 0) <
      if op.needsWord = true then 1 else 0 := by
    intro op hop
    obtain ⟨hneeds, hcompact⟩ := Operand.needsWord_of_isLong hop
    rw [if_pos hneeds, if_neg (Bool.eq_false_iff.1 hcompact)]
    exact Nat.one_pos
  cases inst with
  | basic op a b =>
    have hlong : a.isLong = true ∨ b.isLong = true := by simpa [isLong, operands] using h
    have hlea := hle a
    have hleb := hle b
    simp only [size, compact, operands, List.countP_cons, List.countP_nil]
    rcases hlong with ha | hb
    · have hlta := hlt a ha
      omega
    · have hltb := hlt b hb
      omega
  | nonBasic op a =>
    have hlta := hlt a (by simpa [isLong, operands] using h)
    simp only [size, compact, operands, List.countP_cons, List.countP_nil]
    omega

end Instruction

namespace Visit

def isCanonical (v : Visit) : Bool :=
  match v.instruction? with
  | some inst => !inst.isLong
  | none => false

def compactWords (v : Visit) : List UInt16 :=
  match v.instruction? with
  | some inst => inst.compact.words
  | none => []

theorem compactWords_of_isCanonical {v : Visit} (hsound : v.Sound) (h : v.isCanonical = true) :
    v.compactWords = v.words := by
  obtain ⟨address, words, _ | inst⟩ := v
  · contradiction
  · have hlong : inst.isLong = false := by simpa [isCanonical] using h
    change inst.compact.words = words
    rw [Instruction.compact_of_isLong_eq_false hlong]
    exact hsound.2.symm

theorem length_compactWords_lt {v : Visit} (hsound : v.Sound) (h : v.isCanonical = false) :
    v.compactWords.length < v.words.length := by
  obtain ⟨address, words, _ | inst⟩ := v
  · obtain ⟨word, rfl, -⟩ := hsound
    exact Nat.one_pos
  · obtain ⟨hplain, rfl⟩ := hsound
    have hlong : inst.isLong = true := by simpa [isCanonical] using h
    change inst.compact.words.length < inst.words.length
    rw [Instruction.length_words_of_plain hplain,
      Instruction.length_words_of_plain (Instruction.plain_compact hplain)]
    exact Instruction.size_compact_lt hlong

theorem length_compactWords_le {v : Visit} (hsound : v.Sound) : v.compactWords.length ≤ v.words.length := by
  cases h : v.isCanonical with
  | true => rw [compactWords_of_isCanonical hsound h]
  | false => exact (length_compactWords_lt hsound h).le

end Visit

/-- A walk over the words skips none, and no literal it meets is longer than it need be. -/
def Canonical (words : List UInt16) : Prop := ∀ v ∈ visits words, v.isCanonical = true

instance (words : List UInt16) : Decidable (Canonical words) :=
  inferInstanceAs (Decidable (∀ v ∈ visits words, v.isCanonical = true))

def compactWords (words : List UInt16) : List UInt16 := (visits words).flatMap Visit.compactWords

section
variable {words : List UInt16}

theorem flatMap_words_visits (h : leftover words = []) : (visits words).flatMap Visit.words = words := by
  have hall := flatMap_words_visitsFrom_append_leftover 0 words
  rw [h, List.append_nil] at hall
  exact hall

theorem length_compactWords_le (words : List UInt16) : (compactWords words).length ≤ words.length := by
  have hall := congrArg List.length (flatMap_words_visitsFrom_append_leftover 0 words)
  have hle : ((visits words).map fun v => v.compactWords.length).sum ≤
      ((visits words).map fun v => v.words.length).sum :=
    List.sum_le_sum fun v hv => Visit.length_compactWords_le (sound_of_mem_visitsFrom v hv)
  rw [List.length_append, List.length_flatMap] at hall
  rw [compactWords, List.length_flatMap]
  exact hle.trans (hall ▸ Nat.le_add_right _ _)

theorem length_compactWords_lt (h : leftover words = []) (hnot : ¬ Canonical words) :
    (compactWords words).length < words.length := by
  have hsome : ∃ v ∈ visits words, v.isCanonical = false := by simpa [Canonical] using hnot
  obtain ⟨v, hv, hlong⟩ := hsome
  nth_rewrite 2 [← flatMap_words_visits h]
  rw [compactWords, List.length_flatMap, List.length_flatMap]
  refine List.sum_lt_sum _ _ (fun v hv => ?_) ⟨v, hv, ?_⟩
  · exact Visit.length_compactWords_le (sound_of_mem_visitsFrom v hv)
  · exact Visit.length_compactWords_lt (sound_of_mem_visitsFrom v hv) hlong

theorem compactWords_eq_iff (h : leftover words = []) : compactWords words = words ↔ Canonical words := by
  constructor
  · intro heq
    by_contra hnot
    have hlt := length_compactWords_lt h hnot
    rw [heq] at hlt
    exact Nat.lt_irrefl _ hlt
  · intro hcanonical
    have hvisits : compactWords words = (visits words).flatMap Visit.words :=
      List.flatMap_congr fun v hv =>
        Visit.compactWords_of_isCanonical (sound_of_mem_visitsFrom v hv) (hcanonical v hv)
    rw [hvisits, flatMap_words_visits h]

end

theorem flatMap_words_compact (vs : List Visit) :
    ((vs.filterMap Visit.instruction?).map Instruction.compact).flatMap Instruction.words =
      vs.flatMap Visit.compactWords := by
  induction vs with
  | nil => rfl
  | cons v rest ih =>
    obtain ⟨address, words, _ | inst⟩ := v
    · exact ih
    · exact congrArg (inst.compact.words ++ ·) ih

/-- What is disassembled is assembled again to its instructions, each as short as it can be. -/
theorem assemble_of_disassemble {words : List UInt16} (hlength : words.length ≤ 65536) {text : Text}
    (h : disassemble words = .ok text) :
    leftover words = [] ∧ Assembly.assemble text = .ok (compactWords words) := by
  obtain ⟨listings, hwalk, rfl⟩ := disassemble_eq_ok_iff.1 h
  obtain ⟨hnil, rfl⟩ := walkFrom_eq_map_ok_iff.1 hwalk
  have htexts : ((visits words).filterMap Visit.listing?).map Listing.text =
      ((visits words).filterMap Visit.instruction?).map Instruction.text := by
    rw [List.map_filterMap, List.map_filterMap]
    congr 1
    funext v
    simp [Visit.listing?, Option.map_map, Function.comp_def, Listing.text]
  have hplain : ∀ inst ∈ (visits words).filterMap Visit.instruction?, inst.Plain := by
    intro inst hinst
    obtain ⟨v, hv, hsome⟩ := List.mem_filterMap.1 hinst
    have hsound := sound_of_mem_visitsFrom v hv
    rw [Visit.Sound, hsome] at hsound
    exact hsound.1
  have hsize : (((visits words).filterMap Visit.instruction?).map fun inst => inst.compact.size).sum ≤ 65536 := by
    rw [← Instruction.length_flatMap_compact_words hplain, flatMap_words_compact]
    exact (length_compactWords_le words).trans hlength
  refine ⟨hnil, ?_⟩
  change Assembly.assemble (Text.stacked (((visits words).filterMap Visit.listing?).map Listing.text)) = _
  rw [htexts, Assembly.assemble_stacked hplain hsize, flatMap_words_compact]
  rfl

/-- The sequences that survive disassembly and assembly word for word are the canonical ones; all
others come back shorter. -/
theorem assemble_eq_ok_iff_canonical {words : List UInt16} (hlength : words.length ≤ 65536)
    {text : Text} (h : disassemble words = .ok text) :
    (Assembly.assemble text = .ok words ↔ Canonical words) ∧
      (¬ Canonical words → ∃ shorter, Assembly.assemble text = .ok shorter ∧
        shorter.length < words.length) := by
  obtain ⟨hnil, hassemble⟩ := assemble_of_disassemble hlength h
  constructor
  · rw [hassemble, ← compactWords_eq_iff hnil]
    exact ⟨Except.ok.inj, congrArg _⟩
  · intro hnot
    exact ⟨_, hassemble, length_compactWords_lt hnil hnot⟩

theorem assemble_eq_ok_iff_canonical_short_literal :
    ∃ text, disassemble [0x8c01, 0x7dc1, 0xabcd] = .ok text ∧
      Assembly.assemble text = .ok [0x8c01, 0x7dc1, 0xabcd] ∧
      disassemble [0x7c01, 0x0003, 0x0000, 0x7dc1, 0xabcd] = .ok text ∧
      Assembly.assemble text ≠ .ok [0x7c01, 0x0003, 0x0000, 0x7dc1, 0xabcd] := by
  have hshort : disassemble [0x8c01, 0x7dc1, 0xabcd] = .ok (ascii "SET A, 0x3\nSET PC, 0xabcd") := by
    decide +kernel
  have hlong : disassemble [0x7c01, 0x0003, 0x0000, 0x7dc1, 0xabcd] =
      .ok (ascii "SET A, 0x3\nSET PC, 0xabcd") := by decide +kernel
  have hcanonical : Canonical [0x8c01, 0x7dc1, 0xabcd] := by decide +kernel
  have hnot : ¬ Canonical [0x7c01, 0x0003, 0x0000, 0x7dc1, 0xabcd] := by decide +kernel
  refine ⟨_, hshort, (assemble_eq_ok_iff_canonical (by decide) hshort).1.2 hcanonical, hlong, ?_⟩
  exact mt (assemble_eq_ok_iff_canonical (by decide) hlong).1.1 hnot

end Asm16
