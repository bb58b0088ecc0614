import Asm16.Proofs.Walk

/-! The visits of a walk. A walk lists the instructions and passes over all other words in silence;
its visits are both, and with the words it leaves unread at the end they make up the whole sequence.
Decoding looks no further than the words of the instruction it gives, so a walk over two sequences
joined goes on where the walk over the first one stopped. -/

namespace Asm16

namespace Instruction

theorem decode_cons_eq_skipped_iff {word : UInt16} {tail rest : List UInt16} :
    decode (word :: tail) = .skipped rest ↔
      (⟨word, []⟩ : Code).isBasic = false ∧ (⟨word, []⟩ : Code).nonBasicOp ≠ NonBasicOp.jsr ∧
        tail = rest := by
  simp only [decode]
  by_cases hbasic : (⟨word, []⟩ : Code).isBasic = true
  · rw [if_pos hbasic]
    simp only [hbasic, Bool.true_eq_false, false_and, iff_false]
    split
    · simp
    · split <;> simp
  · rw [if_neg hbasic]
    by_cases hjsr : (⟨word, []⟩ : Code).nonBasicOp = NonBasicOp.jsr
    · rw [if_pos hjsr]
      simp only [hjsr, ne_eq, not_true_eq_false, false_and, and_false, iff_false]
      split <;> simp
    · rw [if_neg hjsr]
      simp [hbasic, hjsr]

theorem eq_cons_of_decode_skipped {words rest : List UInt16} (h : decode words = .skipped rest) :
    ∃ word, words = word :: rest := by
  cases words with
  | nil => contradiction
  | cons word tail =>
    obtain ⟨-, -, rfl⟩ := decode_cons_eq_skipped_iff.1 h
    exact ⟨word, rfl⟩

theorem eq_words_append_of_decode {words rest : List UInt16} {inst : Instruction}
    (h : decode words = .instruction inst rest) : inst.Plain ∧ words = inst.words ++ rest := by
  obtain ⟨hplain, code, hencode, rfl⟩ := encode_of_decode h
  exact ⟨hplain, by rw [words_of_encode hencode]⟩

theorem decode_words_append {inst : Instruction} (h : inst.Plain) (rest : List UInt16) :
    decode (inst.words ++ rest) = .instruction inst rest := by
  obtain ⟨code, hencode⟩ := exists_encode_of_plain h
  rw [words_of_encode hencode]
  exact decode_of_encode h hencode rest

theorem decode_append_of_skipped {words rest : List UInt16} (h : decode words = .skipped rest)
    (more : List UInt16) : decode (words ++ more) = .skipped (rest ++ more) := by
  obtain ⟨word, rfl⟩ := eq_cons_of_decode_skipped h
  obtain ⟨hbasic, hjsr, -⟩ := decode_cons_eq_skipped_iff.1 h
  exact decode_cons_eq_skipped_iff.2 ⟨hbasic, hjsr, rfl⟩

end Instruction

/-- What a walk passes over at an address: the words of an instruction, or one word that is none. -/
structure Visit where
  address : Nat
  words : List UInt16
  instruction? : Option Instruction
  deriving DecidableEq, Repr

def Visit.listing? (v : Visit) : Option Listing := v.instruction?.map (⟨v.address, v.words, ·⟩)

def visitsFrom (address : Nat) (words : List UInt16) : List Visit :=
  match _h : Instruction.decode words with
  | .instruction inst rest =>
    ⟨address, words.take inst.size, some inst⟩ :: visitsFrom (address + inst.size) rest
  | .skipped rest => ⟨address, words.take 1, none⟩ :: visitsFrom (address + 1) rest
  | .truncated => []
termination_by words.length
decreasing_by
  · exact Instruction.length_of_decode _h
  · exact Instruction.length_of_decode_skipped _h

def visits (words : List UInt16) : List Visit := visitsFrom 0 words

/-- The words that a walk leaves unread: none, or an instruction that is cut off. -/
def leftover (words : List UInt16) : List UInt16 :=
  match _h : Instruction.decode words with
  | .instruction _ rest => leftover rest
  | .skipped rest => leftover rest
  | .truncated => words
termination_by words.length
decreasing_by
  · exact Instruction.length_of_decode _h
  · exact Instruction.length_of_decode_skipped _h

theorem visit_induction {motive : Nat → List UInt16 → Prop}
    (truncated : ∀ address words, Instruction.decode words = .truncated → motive address words)
    (instruction : ∀ address inst rest, Instruction.Plain inst →
      motive (address + inst.size) rest → motive address (inst.words ++ rest))
    (skipped : ∀ address word rest, Instruction.decode (word :: rest) = .skipped rest →
      motive (address + 1) rest → motive address (word :: rest))
    (address : Nat) (words : List UInt16) : motive address words := by
  induction address, words using walk_induction with
  | nil address => exact truncated address [] rfl
  | instruction address words inst rest hdecode ih =>
    obtain ⟨hplain, rfl⟩ := Instruction.eq_words_append_of_decode hdecode
    exact instruction address inst rest hplain ih
  | skipped address words rest hdecode ih =>
    obtain ⟨word, rfl⟩ := Instruction.eq_cons_of_decode_skipped hdecode
    exact skipped address word rest hdecode ih
  | truncated address words _ hdecode => exact truncated address words hdecode

section
variable {inst : Instruction}

theorem take_words_append (h : inst.Plain) (rest : List UInt16) :
    (inst.words ++ rest).take inst.size = inst.words := by
  rw [← Instruction.length_words_of_plain h, List.take_left]

theorem walkFrom_words_append (h : inst.Plain) (address : Nat) (rest : List UInt16) :
    walkFrom address [] (inst.words ++ rest) =
      .ok ⟨address, inst.words, inst⟩ :: walkFrom (address + inst.size) [] rest := by
  rw [walkFrom_of_instruction (Instruction.decode_words_append h rest), take_words_append h]

theorem visitsFrom_words_append (h : inst.Plain) (address : Nat) (rest : List UInt16) :
    visitsFrom address (inst.words ++ rest) =
      ⟨address, inst.words, some inst⟩ :: visitsFrom (address + inst.size) rest := by
  have hdecode := Instruction.decode_words_append h rest
  have htake := take_words_append h rest
  rw [visitsFrom]
  split <;> simp_all

theorem leftover_words_append (h : inst.Plain) (rest : List UInt16) :
    leftover (inst.words ++ rest) = leftover rest := by
  have hdecode := Instruction.decode_words_append h rest
  rw [leftover]
  split <;> simp_all

end

section
variable {words rest : List UInt16} {word : UInt16}

theorem visitsFrom_of_skipped (h : Instruction.decode (word :: rest) = .skipped rest) (address : Nat) :
    visitsFrom address (word :: rest) = ⟨address, [word], none⟩ :: visitsFrom (address + 1) rest := by
  rw [visitsFrom]
  split <;> simp_all

theorem leftover_of_skipped (h : Instruction.decode (word :: rest) = .skipped rest) :
    leftover (word :: rest) = leftover rest := by
  rw [leftover]
  split <;> simp_all

theorem visitsFrom_of_truncated (h : Instruction.decode words = .truncated) (address : Nat) :
    visitsFrom address words = [] := by
  rw [visitsFrom]
  split <;> simp_all

theorem leftover_of_truncated (h : Instruction.decode words = .truncated) : leftover words = words := by
  rw [leftover]
  split <;> simp_all

end

theorem decode_leftover (words : List UInt16) : Instruction.decode (leftover words) = .truncated := by
  refine visit_induction (motive := fun _ words => Instruction.decode (leftover words) = .truncated)
    ?_ ?_ ?_ 0 words
  · intro _ words h
    rw [leftover_of_truncated h, h]
  · intro _ inst rest h ih
    rw [leftover_words_append h, ih]
  · intro _ word rest h ih
    rw [leftover_of_skipped h, ih]

/-- Nothing is lost: the words visited and those left unread are all words in order. -/
theorem flatMap_words_visitsFrom_append_leftover (address : Nat) (words : List UInt16) :
    (visitsFrom address words).flatMap Visit.words ++ leftover words = words := by
  induction address, words using visit_induction with
  | truncated address words h =>
    rw [visitsFrom_of_truncated h, leftover_of_truncated h]
    rfl
  | instruction address inst rest h ih =>
    rw [visitsFrom_words_append h, leftover_words_append h, List.flatMap_cons, List.append_assoc, ih]
  | skipped address word rest h ih =>
    rw [visitsFrom_of_skipped h, leftover_of_skipped h, List.flatMap_cons, List.append_assoc, ih]
    rfl

theorem leftover_suffix (words : List UInt16) : leftover words <:+ words :=
  ⟨_, flatMap_words_visitsFrom_append_leftover 0 words⟩

def stopFrom (address : Nat) (words : List UInt16) : Nat :=
  address + (words.length - (leftover words).length)

theorem stopFrom_words_append {inst : Instruction} (h : inst.Plain) (address : Nat) (rest : List UInt16) :
    stopFrom address (inst.words ++ rest) = stopFrom (address + inst.size) rest := by
  have hle := (leftover_suffix rest).length_le
  rw [stopFrom, stopFrom, leftover_words_append h, List.length_append, Instruction.length_words_of_plain h]
  omega

theorem stopFrom_of_skipped {word : UInt16} {rest : List UInt16}
    (h : Instruction.decode (word :: rest) = .skipped rest) (address : Nat) :
    stopFrom address (word :: rest) = stopFrom (address + 1) rest := by
  have hle := (leftover_suffix rest).length_le
  rw [stopFrom, stopFrom, leftover_of_skipped h, List.length_cons]
  omega

theorem stopFrom_of_truncated {words : List UInt16} (h : Instruction.decode words = .truncated)
    (address : Nat) : stopFrom address words = address := by
  rw [stopFrom, leftover_of_truncated h, Nat.sub_self, Nat.add_zero]

def Visit.Sound (v : Visit) : Prop :=
  match v.instruction? with
  | some inst => inst.Plain ∧ v.words = inst.words
  | none => ∃ word, v.words = [word] ∧
    (⟨word, []⟩ : Code).isBasic = false ∧ (⟨word, []⟩ : Code).nonBasicOp ≠ NonBasicOp.jsr

theorem sound_of_mem_visitsFrom {address : Nat} {words : List UInt16} :
    ∀ v ∈ visitsFrom address words, v.Sound := by
  induction address, words using visit_induction with
  | truncated address words h =>
    rw [visitsFrom_of_truncated h]
    intro v hv
    contradiction
  | instruction address inst rest h ih =>
    rw [visitsFrom_words_append h, List.forall_mem_cons]
    exact ⟨⟨h, rfl⟩, ih⟩
  | skipped address word rest h ih =>
    obtain ⟨hbasic, hjsr, -⟩ := Instruction.decode_cons_eq_skipped_iff.1 h
    rw [visitsFrom_of_skipped h, List.forall_mem_cons]
    exact ⟨⟨word, rfl, hbasic, hjsr⟩, ih⟩

theorem visitsFrom_append (address : Nat) (left right : List UInt16) :
    visitsFrom address (left ++ right) =
      visitsFrom address left ++ visitsFrom (stopFrom address left) (leftover left ++ right) := by
  induction address, left using visit_induction with
  | truncated address left h =>
    -- Nothing is visited here; with the words that follow the same decoding is tried again.
    rw [visitsFrom_of_truncated h, leftover_of_truncated h, stopFrom_of_truncated h, List.nil_append]
  | instruction address inst rest h ih =>
    rw [List.append_assoc, visitsFrom_words_append h, visitsFrom_words_append h, leftover_words_append h,
      stopFrom_words_append h, ih, List.cons_append]
  | skipped address word rest h ih =>
    have hdecode : Instruction.decode (word :: (rest ++ right)) = .skipped (rest ++ right) :=
      Instruction.decode_append_of_skipped h right
    rw [List.cons_append, visitsFrom_of_skipped hdecode, visitsFrom_of_skipped h, leftover_of_skipped h,
      stopFrom_of_skipped h, ih, List.cons_append]

theorem walkFrom_append_words (address : Nat) (left right : List UInt16) :
    walkFrom address [] (left ++ right) =
      ((visitsFrom address left).filterMap Visit.listing?).map .ok ++
        walkFrom (stopFrom address left) [] (leftover left ++ right) := by
  induction address, left using visit_induction with
  | truncated address left h =>
    rw [visitsFrom_of_truncated h, leftover_of_truncated h, stopFrom_of_truncated h]
    rfl
  | instruction address inst rest h ih =>
    rw [List.append_assoc, walkFrom_words_append h, visitsFrom_words_append h, leftover_words_append h,
      stopFrom_words_append h, ih]
    rfl
  | skipped address word rest h ih =>
    have hdecode : Instruction.decode (word :: (rest ++ right)) = .skipped (rest ++ right) :=
      Instruction.decode_append_of_skipped h right
    rw [List.cons_append, walkFrom_of_skipped hdecode, visitsFrom_of_skipped h, leftover_of_skipped h,
      stopFrom_of_skipped h, ih]
    rfl

/-- A walk is its visits without the skipped words, and an error if words are left unread. -/
theorem walkFrom_eq (address : Nat) (words : List UInt16) :
    walkFrom address [] words = ((visitsFrom address words).filterMap Visit.listing?).map .ok ++
      if leftover words = [] then [] else [.error ⟨stopFrom address words, .wordsTruncated⟩] := by
  have happend := walkFrom_append_words address words []
  rw [List.append_nil, List.append_nil] at happend
  rw [happend]
  split
  · rename_i hnil
    rw [hnil, walkFrom_nil, List.reverse_nil]
  · rename_i hne
    rw [walkFrom_of_truncated hne (decode_leftover words)]

theorem error_mem_walkFrom_iff {address : Nat} {words : List UInt16} {e : DecodeError} :
    .error e ∈ walkFrom address [] words ↔
      leftover words ≠ [] ∧ e = ⟨stopFrom address words, .wordsTruncated⟩ := by
  have hlistings : .error e ∉ ((visitsFrom address words).filterMap Visit.listing?).map Except.ok := by
    intro hmem
    obtain ⟨l, _, hl⟩ := List.mem_map.1 hmem
    contradiction
  rw [walkFrom_eq, List.mem_append, or_iff_right hlistings]
  split
  · rename_i hnil
    simp [hnil]
  · rename_i hne
    rw [List.mem_singleton, Except.error.injEq]
    exact (and_iff_right hne).symm

theorem walkFrom_eq_map_ok_iff {address : Nat} {words : List UInt16} {listings : List Listing} :
    walkFrom address [] words = listings.map .ok ↔
      leftover words = [] ∧ (visitsFrom address words).filterMap Visit.listing? = listings := by
  have hinj : ∀ l l' : Listing, (.ok l : WalkItem) = .ok l' → l = l' := fun _ _ => Except.ok.inj
  constructor
  · intro h
    have hnil : leftover words = [] := by
      by_contra hne
      have herror : .error _ ∈ walkFrom address [] words := error_mem_walkFrom_iff.2 ⟨hne, rfl⟩
      rw [h] at herror
      obtain ⟨l, _, hl⟩ := List.mem_map.1 herror
      contradiction
    rw [walkFrom_eq, if_pos hnil, List.append_nil] at h
    exact ⟨hnil, (List.map_inj_right hinj).1 h⟩
  · rintro ⟨hnil, rfl⟩
    rw [walkFrom_eq, if_pos hnil, List.append_nil]

theorem textsFrom_map_ok_append_error (texts : List Text) (listings : List Listing) (e : DecodeError) :
    textsFrom texts (listings.map .ok ++ [.error e]) = .error e := by
  induction listings generalizing texts with
  | nil => rfl
  | cons l ls ih => exact ih (l.text :: texts)

theorem walk_eq_of_leftover_ne_nil {words : List UInt16} (h : leftover words ≠ []) :
    walk words = ((visits words).filterMap Visit.listing?).map .ok ++
      [.error ⟨stopFrom 0 words, .wordsTruncated⟩] := by
  have hwalk := walkFrom_eq 0 words
  rw [if_neg h] at hwalk
  exact hwalk

/-- Disassembly fails if and only if words are left unread, and names the address of the first of them. -/
theorem disassemble_eq_error_iff {words : List UInt16} {e : DecodeError} :
    disassemble words = .error e ↔ leftover words ≠ [] ∧ e = ⟨stopFrom 0 words, .wordsTruncated⟩ := by
  by_cases hleft : leftover words = []
  · have hok : disassemble words = .ok _ :=
      disassemble_eq_ok_iff.2 ⟨_, walkFrom_eq_map_ok_iff.2 ⟨hleft, rfl⟩, rfl⟩
    simp [hok, hleft]
  · have herror : disassemble words = .error ⟨stopFrom 0 words, .wordsTruncated⟩ := by
      unfold disassemble
      rw [walk_eq_of_leftover_ne_nil hleft, textsFrom_map_ok_append_error]
    rw [herror, Except.error.injEq, eq_comm]
    exact (and_iff_right hleft).symm

def WalkItem.moved (distance : Nat) : WalkItem → WalkItem
  | .ok l => .ok { l with address := l.address + distance }
  | .error e => .error { e with address := e.address + distance }

theorem walkFrom_add (address distance : Nat) (words : List UInt16) :
    walkFrom (address + distance) [] words = (walkFrom address [] words).map (WalkItem.moved distance) := by
  induction address, words using walk_induction with
  | nil address =>
    rw [walkFrom_nil, walkFrom_nil]
    rfl
  | instruction address words inst rest h ih =>
    rw [walkFrom_of_instruction h, walkFrom_of_instruction h, Nat.add_right_comm, ih]
    rfl
  | skipped address words rest h ih =>
    rw [walkFrom_of_skipped h, walkFrom_of_skipped h, Nat.add_right_comm, ih]
  | truncated address words hne h =>
    rw [walkFrom_of_truncated hne h, walkFrom_of_truncated hne h]
    rfl

theorem drop_stopFrom_append (left right : List UInt16) :
    (left ++ right).drop (stopFrom 0 left) = leftover left ++ right := by
  have hstop : stopFrom 0 left = left.length - (leftover left).length := Nat.zero_add _
  have hle : stopFrom 0 left ≤ left.length := hstop ▸ Nat.sub_le _ _
  rw [List.drop_append_of_le_length hle, hstop, ← List.suffix_iff_eq_drop.1 (leftover_suffix left)]

/-- A walk over two sequences joined. If nothing of the first one is left unread, the walk over the
second one follows, further on by the words of the first. Otherwise what the first one ends in is
decoded again, with the words of the second to complete it, and nothing changes before. -/
theorem walk_append (left right : List UInt16) :
    ((∀ e, .error e ∉ walk left) →
      walk (left ++ right) = walk left ++ (walk right).map (WalkItem.moved left.length)) ∧
    ∀ e, .error e ∈ walk left → ∃ listings : List Listing,
      walk left = listings.map .ok ++ [.error e] ∧ e.address < left.length ∧
        walk (left ++ right) = listings.map .ok ++ walkFrom e.address [] ((left ++ right).drop e.address) ∧
        visits (left ++ right) = visits left ++ visitsFrom e.address ((left ++ right).drop e.address) := by
  have hwalk : walk left = _ := walkFrom_eq 0 left
  have happend := walkFrom_append_words 0 left right
  constructor
  · intro hok
    have hnil : leftover left = [] := by
      by_contra hne
      exact hok _ (error_mem_walkFrom_iff.2 ⟨hne, rfl⟩)
    have hstop : stopFrom 0 left = 0 + left.length := by
      rw [stopFrom, hnil, List.length_nil, Nat.sub_zero]
    rw [if_pos hnil, List.append_nil] at hwalk
    rw [hnil, hstop, walkFrom_add, ← hwalk] at happend
    exact happend
  · intro e he
    obtain ⟨hne, rfl⟩ := error_mem_walkFrom_iff.1 he
    rw [if_neg hne] at hwalk
    -- What is left unread of the first sequence is just what lies behind the address of the error.
    rw [drop_stopFrom_append]
    refine ⟨_, hwalk, ?_, happend, visitsFrom_append 0 left right⟩
    have hpos := List.length_pos_iff.2 hne
    have hle := (leftover_suffix left).length_le
    change 0 + (left.length - (leftover left).length) < left.length
    omega

theorem walk_append_cut_off :
    (∀ e, .error e ∉ walk [0x0000, 0x7c01, 0x0030]) ∧
      walk ([0x0000, 0x7c01, 0x0030] ++ [0x8401, 0x7de1]) =
        walk [0x0000, 0x7c01, 0x0030] ++ (walk [0x8401, 0x7de1]).map (WalkItem.moved 3) ∧
      .error ⟨1, .wordsTruncated⟩ ∈ walk [0x8401, 0x7de1] ∧
      ∃ listings : List Listing, walk [0x8401, 0x7de1] = listings.map .ok ++ [.error ⟨1, .wordsTruncated⟩] ∧
        walk ([0x8401, 0x7de1] ++ [0x1000, 0x0020]) =
          listings.map .ok ++ walkFrom 1 [] [0x7de1, 0x1000, 0x0020] := by
  have hwalk : walk [0x0000, 0x7c01, 0x0030] = [.ok ⟨1, [0x7c01, 0x0030],
      .basic ⟨1⟩ (.register ⟨0⟩) (.nextWord ⟨0x30, none⟩)⟩] := by decide +kernel
  have hok : ∀ e, .error e ∉ walk [0x0000, 0x7c01, 0x0030] := by simp [hwalk]
  have hcut : .error ⟨1, .wordsTruncated⟩ ∈ walk [0x8401, 0x7de1] := by decide +kernel
  obtain ⟨listings, hleft, -, hjoined, -⟩ := (walk_append [0x8401, 0x7de1] [0x1000, 0x0020]).2 _ hcut
  exact ⟨hok, (walk_append _ [0x8401, 0x7de1]).1 hok, hcut, listings, hleft, hjoined⟩

end Asm16
