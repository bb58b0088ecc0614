import Asm16.Listing
import Asm16.Proofs.Encoding

/-! Walks over word sequences. A walk is described item by item, without the items before; from
this follow what a walk without an error says about its words, and the walk over a sequence of
encoded instructions, which finds exactly those. -/

namespace Asm16

theorem walkFrom_nil (address : Nat) (done : List WalkItem) :
    walkFrom address done [] = done.reverse := by
  rw [walkFrom]
  rfl

theorem walkFrom_of_ne_nil {words : List UInt16} (hne : words ≠ []) (address : Nat)
    (done : List WalkItem) :
    walkFrom address done words =
      match Instruction.decode words with
      | .instruction inst rest =>
        walkFrom (address + inst.size) (.ok ⟨address, words.take inst.size, inst⟩ :: done) rest
      | .skipped rest => walkFrom (address + 1) done rest
      | .truncated => (.error ⟨address, .wordsTruncated⟩ :: done).reverse := by
  rw [walkFrom, if_neg (by simpa using hne)]
  split <;> simp_all

theorem walkFrom_append (address : Nat) (done before : List WalkItem) (words : List UInt16) :
    walkFrom address (done ++ before) words = before.reverse ++ walkFrom address done words := by
  fun_induction walkFrom address done words with
  | case1 address done words hempty =>
    rw [List.isEmpty_iff.1 hempty, walkFrom_nil, List.reverse_append]
  | case2 address done words hempty inst rest hdecode ih =>
    rw [walkFrom_of_ne_nil (by simpa using hempty), hdecode]
    exact ih
  | case3 address done words hempty rest hdecode ih =>
    rw [walkFrom_of_ne_nil (by simpa using hempty), hdecode]
    exact ih
  | case4 address done words hempty hdecode =>
    rw [walkFrom_of_ne_nil (by simpa using hempty), hdecode, ← List.reverse_append]
    rfl

namespace Instruction

theorem ne_nil_of_decode {words rest : List UInt16} {inst : Instruction}
    (h : decode words = .instruction inst rest) : words ≠ [] := by
  rintro rfl
  contradiction

theorem ne_nil_of_decode_skipped {words rest : List UInt16} (h : decode words = .skipped rest) :
    words ≠ [] := by
  rintro rfl
  contradiction

end Instruction

theorem walkFrom_of_instruction {words rest : List UInt16} {inst : Instruction}
    (h : Instruction.decode words = .instruction inst rest) (address : Nat) :
    walkFrom address [] words =
      .ok ⟨address, words.take inst.size, inst⟩ :: walkFrom (address + inst.size) [] rest := by
  rw [walkFrom_of_ne_nil (Instruction.ne_nil_of_decode h), h]
  exact walkFrom_append _ [] [_] rest

theorem walkFrom_of_skipped {words rest : List UInt16} (h : Instruction.decode words = .skipped rest)
    (address : Nat) : walkFrom address [] words = walkFrom (address + 1) [] rest := by
  rw [walkFrom_of_ne_nil (Instruction.ne_nil_of_decode_skipped h), h]

theorem walkFrom_of_truncated {words : List UInt16} (hne : words ≠ [])
    (h : Instruction.decode words = .truncated) (address : Nat) :
    walkFrom address [] words = [.error ⟨address, .wordsTruncated⟩] := by
  rw [walkFrom_of_ne_nil hne, h]
  rfl

theorem walk_induction {motive : Nat → List UInt16 → Prop}
    (nil : ∀ address, motive address [])
    (instruction : ∀ address words inst rest, Instruction.decode words = .instruction inst rest →
      motive (address + inst.size) rest → motive address words)
    (skipped : ∀ address words rest, Instruction.decode words = .skipped rest →
      motive (address + 1) rest → motive address words)
    (truncated : ∀ address words, words ≠ [] → Instruction.decode words = .truncated →
      motive address words)
    (address : Nat) (words : List UInt16) : motive address words := by
  refine walkFrom.induct (fun address _ words => motive address words) ?_ ?_ ?_ ?_ address [] words
  · intro address _ words hempty
    rw [List.isEmpty_iff.1 hempty]
    exact nil address
  · intro address _ words _ inst rest hdecode ih
    exact instruction address words inst rest hdecode ih
  · intro address _ words _ rest hdecode ih
    exact skipped address words rest hdecode ih
  · intro address _ words hempty hdecode
    exact truncated address words (by simpa using hempty) hdecode

theorem plain_of_walkFrom {address : Nat} {words : List UInt16} {listings : List Listing}
    (h : walkFrom address [] words = listings.map .ok) :
    (∀ l ∈ listings, l.instruction.Plain) ∧
      (listings.map fun l => l.instruction.size).sum ≤ words.length := by
  induction address, words using walk_induction generalizing listings with
  | nil address =>
    rw [walkFrom_nil] at h
    obtain rfl : listings = [] := by simpa using h.symm
    simp
  | instruction address words inst rest hdecode ih =>
    rw [walkFrom_of_instruction hdecode] at h
    obtain ⟨l, ls, rfl, hl, hls⟩ := List.map_eq_cons_iff.1 h.symm
    obtain rfl := Except.ok.inj hl
    obtain ⟨hplain, code, hencode, rfl⟩ := Instruction.encode_of_decode hdecode
    obtain ⟨hrest, hsum⟩ := ih hls.symm
    have hlen := Instruction.length_of_encode hencode
    refine ⟨?_, ?_⟩
    · intro l hl
      rcases List.mem_cons.1 hl with rfl | hl
      · exact hplain
      · exact hrest l hl
    · simp only [List.map_cons, List.sum_cons, List.length_append, hlen]
      omega
  | skipped address words rest hdecode ih =>
    rw [walkFrom_of_skipped hdecode] at h
    have hlen := Instruction.length_of_decode_skipped hdecode
    obtain ⟨hplain, hsum⟩ := ih h
    exact ⟨hplain, by omega⟩
  | truncated address words hne hdecode =>
    rw [walkFrom_of_truncated hne hdecode] at h
    obtain ⟨l, ls, _, hl, _⟩ := List.map_eq_cons_iff.1 h.symm
    contradiction

/-- The words that an instruction is encoded in; none if it cannot be. -/
def Instruction.words (inst : Instruction) : List UInt16 :=
  match inst.encode with
  | .ok code => code.words
  | .error _ => []

theorem Instruction.words_of_encode {inst : Instruction} {code : Code} (h : inst.encode = .ok code) :
    inst.words = code.words := by
  rw [words, h]

theorem Instruction.length_words_of_plain {inst : Instruction} (h : inst.Plain) :
    inst.words.length = inst.size := by
  obtain ⟨code, hcode⟩ := exists_encode_of_plain h
  rw [words_of_encode hcode, length_of_encode hcode]

def listingsFrom (address : Nat) : List Instruction → List Listing
  | [] => []
  | inst :: rest => ⟨address, inst.words, inst⟩ :: listingsFrom (address + inst.size) rest

theorem map_instruction_listingsFrom (address : Nat) (insts : List Instruction) :
    (listingsFrom address insts).map Listing.instruction = insts := by
  induction insts generalizing address with
  | nil => rfl
  | cons inst rest ih => rw [listingsFrom, List.map_cons, ih]

theorem walkFrom_flatMap_words {insts : List Instruction} (h : ∀ inst ∈ insts, inst.Plain)
    (address : Nat) :
    walkFrom address [] (insts.flatMap Instruction.words) = (listingsFrom address insts).map .ok := by
  induction insts generalizing address with
  | nil => exact walkFrom_nil address []
  | cons inst rest ih =>
    have hplain := h inst (List.mem_cons_self ..)
    obtain ⟨code, hencode⟩ := Instruction.exists_encode_of_plain hplain
    have hwords := Instruction.words_of_encode hencode
    have hdecode := Instruction.decode_of_encode hplain hencode (rest.flatMap Instruction.words)
    rw [List.flatMap_cons, hwords, walkFrom_of_instruction hdecode,
      ih fun inst hinst => h inst (List.mem_cons_of_mem _ hinst), ← Instruction.length_of_encode hencode,
      List.take_left, listingsFrom, hwords, Instruction.length_of_encode hencode]
    rfl

theorem textsFrom_map_ok (texts : List Text) (listings : List Listing) :
    textsFrom texts (listings.map .ok) = .ok (texts.reverse ++ listings.map Listing.text) := by
  induction listings generalizing texts with
  | nil => simp [textsFrom]
  | cons l ls ih =>
    rw [List.map_cons, textsFrom, ih]
    simp

theorem exists_listings_of_textsFrom {texts lines : List Text} {items : List WalkItem}
    (h : textsFrom texts items = .ok lines) : ∃ listings : List Listing, items = listings.map .ok := by
  induction items generalizing texts with
  | nil => exact ⟨[], rfl⟩
  | cons item rest ih =>
    cases item with
    | error e => contradiction
    | ok l =>
      obtain ⟨ls, rfl⟩ := ih h
      exact ⟨l :: ls, rfl⟩

/-- Disassembly succeeds if and only if the walk meets no error, and then gives its texts. -/
theorem disassemble_eq_ok_iff {words : List UInt16} {text : Text} :
    disassemble words = .ok text ↔
      ∃ listings : List Listing, walk words = listings.map .ok ∧
        text = Text.stacked (listings.map Listing.text) := by
  unfold disassemble
  constructor
  · intro h
    split at h
    · rename_i lines hlines
      obtain ⟨listings, hwalk⟩ := exists_listings_of_textsFrom hlines
      rw [hwalk, textsFrom_map_ok] at hlines
      obtain rfl := Except.ok.inj hlines
      exact ⟨listings, hwalk, (Except.ok.inj h).symm⟩
    · contradiction
  · rintro ⟨listings, hwalk, rfl⟩
    rw [hwalk, textsFrom_map_ok]
    rfl

theorem exists_instructions_of_disassemble {words : List UInt16} {text : Text}
    (h : disassemble words = .ok text) :
    ∃ insts : List Instruction, (∀ inst ∈ insts, inst.Plain) ∧
      (insts.map Instruction.size).sum ≤ words.length ∧
        text = Text.stacked (insts.map Instruction.text) := by
  obtain ⟨listings, hwalk, rfl⟩ := disassemble_eq_ok_iff.1 h
  obtain ⟨hplain, hsize⟩ := plain_of_walkFrom hwalk
  refine ⟨listings.map Listing.instruction, ?_, ?_, ?_⟩
  · intro inst hinst
    obtain ⟨l, hl, rfl⟩ := List.mem_map.1 hinst
    exact hplain l hl
  · rw [List.map_map]
    exact hsize
  · rw [List.map_map]
    rfl

theorem disassemble_flatMap_words {insts : List Instruction} (h : ∀ inst ∈ insts, inst.Plain) :
    disassemble (insts.flatMap Instruction.words) = .ok (Text.stacked (insts.map Instruction.text)) := by
  rw [disassemble_eq_ok_iff]
  refine ⟨listingsFrom 0 insts, walkFrom_flatMap_words h 0, ?_⟩
  nth_rewrite 1 [← map_instruction_listingsFrom 0 insts]
  rw [List.map_map]
  rfl

end Asm16
