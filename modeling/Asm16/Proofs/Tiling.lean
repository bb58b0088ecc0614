import Asm16.Proofs.Position
import Mathlib.Order.Bounds.Defs

/-! A walk tiles its words. Its visits lie one behind the other without a gap, so that every word up to
where the walk ends belongs to just one of them: it is one of the words of a listing, or a single word that
is skipped. The walk ends behind the last word, or at the first position at which fewer words are left than
the word there asks for. -/

namespace Asm16

def Adjoin : Nat → List Visit → Nat → Prop
  | address, [], stop => address = stop
  | address, v :: rest, stop => v.address = address ∧ v.words ≠ [] ∧ Adjoin (address + v.words.length) rest stop

theorem adjoin_visitsFrom (address : Nat) (words : List UInt16) :
    Adjoin address (visitsFrom address words) (stopFrom address words) := by
  induction address, words using visit_induction with
  | truncated address words h =>
    rw [visitsFrom_of_truncated h, stopFrom_of_truncated h]
    rfl
  | instruction address inst rest h ih =>
    have hlength := Instruction.length_words_of_plain h
    have hne : inst.words ≠ [] := by
      apply List.ne_nil_of_length_pos
      rw [hlength, Instruction.size]
      omega
    rw [visitsFrom_words_append h, stopFrom_words_append h]
    refine ⟨rfl, hne, ?_⟩
    rwa [hlength]
  | skipped address word rest h ih =>
    rw [visitsFrom_of_skipped h, stopFrom_of_skipped h]
    exact ⟨rfl, List.cons_ne_nil word [], ih⟩

namespace Adjoin

variable {address stop : Nat} {vs : List Visit}

theorem length_le (h : Adjoin address vs stop) : address + vs.length ≤ stop := by
  induction vs generalizing address with
  | nil => exact Nat.le_of_eq h
  | cons v rest ih =>
    obtain ⟨-, hne, hrest⟩ := h
    have hpos := List.length_pos_iff.2 hne
    have hle := ih hrest
    rw [List.length_cons]
    omega

theorem bounds (h : Adjoin address vs stop) :
    ∀ v ∈ vs, address ≤ v.address ∧ v.address < v.address + v.words.length ∧
      v.address + v.words.length ≤ stop := by
  induction vs generalizing address with
  | nil => simp
  | cons v rest ih =>
    obtain ⟨haddress, hne, hrest⟩ := h
    have hpos := List.length_pos_iff.2 hne
    have hle := hrest.length_le
    refine List.forall_mem_cons.2 ⟨by omega, fun w hw => ?_⟩
    have hbounds := ih hrest w hw
    omega

theorem pairwise (h : Adjoin address vs stop) :
    vs.Pairwise fun v next => v.address + v.words.length ≤ next.address := by
  induction vs generalizing address with
  | nil => exact .nil
  | cons v rest ih =>
    obtain ⟨rfl, -, hrest⟩ := h
    exact .cons (fun w hw => (hrest.bounds w hw).1) (ih hrest)

theorem exists_covering (h : Adjoin address vs stop) {i : Nat} (hlow : address ≤ i) (hhigh : i < stop) :
    ∃ v ∈ vs, v.address ≤ i ∧ i < v.address + v.words.length := by
  induction vs generalizing address with
  | nil =>
    change address = stop at h
    omega
  | cons v rest ih =>
    obtain ⟨rfl, -, hrest⟩ := h
    by_cases hi : i < v.address + v.words.length
    · exact ⟨v, List.mem_cons_self, hlow, hi⟩
    · obtain ⟨w, hw, hcovers⟩ := ih hrest (Nat.not_lt.1 hi)
      exact ⟨w, List.mem_cons_of_mem v hw, hcovers⟩

theorem eq_of_covering (h : Adjoin address vs stop) {v w : Visit} (hv : v ∈ vs) (hw : w ∈ vs) {i : Nat}
    (hvi : v.address ≤ i ∧ i < v.address + v.words.length)
    (hwi : w.address ≤ i ∧ i < w.address + w.words.length) : v = w := by
  induction vs generalizing address with
  | nil => contradiction
  | cons u rest ih =>
    obtain ⟨rfl, -, hrest⟩ := h
    rcases List.mem_cons.1 hv with rfl | hlater
    · rcases List.mem_cons.1 hw with rfl | hlater
      · rfl
      · have hbehind := (hrest.bounds w hlater).1
        omega
    · rcases List.mem_cons.1 hw with rfl | hlater'
      · have hbehind := (hrest.bounds v hlater).1
        omega
      · exact ih hrest hlater hlater'

theorem eq_or_exists_start (h : Adjoin address vs stop) : address = stop ∨ ∃ v ∈ vs, v.address = address := by
  cases vs with
  | nil => exact .inl h
  | cons v rest => exact .inr ⟨v, List.mem_cons_self, h.1⟩

theorem eq_or_exists_next (h : Adjoin address vs stop) :
    ∀ v ∈ vs, v.address + v.words.length = stop ∨ ∃ w ∈ vs, w.address = v.address + v.words.length := by
  induction vs generalizing address with
  | nil => simp
  | cons v rest ih =>
    obtain ⟨rfl, -, hrest⟩ := h
    have hlift : ∀ n : Nat, (n = stop ∨ ∃ w ∈ rest, w.address = n) →
        n = stop ∨ ∃ w ∈ v :: rest, w.address = n := by
      rintro n (hn | ⟨w, hw, hn⟩)
      · exact .inl hn
      · exact .inr ⟨w, List.mem_cons_of_mem v hw, hn⟩
    exact List.forall_mem_cons.2 ⟨hlift _ hrest.eq_or_exists_start, fun w hw => hlift _ (ih hrest w hw)⟩

theorem prefix_drop (h : Adjoin address vs stop) (more : List UInt16) :
    ∀ v ∈ vs, v.words <+: (vs.flatMap Visit.words ++ more).drop (v.address - address) := by
  induction vs generalizing address with
  | nil => simp
  | cons v rest ih =>
    obtain ⟨rfl, -, hrest⟩ := h
    rw [List.flatMap_cons, List.append_assoc]
    refine List.forall_mem_cons.2 ⟨?_, fun w hw => ?_⟩
    · rw [Nat.sub_self, List.drop_zero]
      exact List.prefix_append v.words _
    · have hbounds := hrest.bounds w hw
      have hsplit : w.address - v.address = v.words.length + (w.address - (v.address + v.words.length)) := by omega
      rw [hsplit, List.drop_length_add_append]
      exact ih hrest w hw

end Adjoin

section
variable {words : List UInt16}

theorem adjoin_visits (words : List UInt16) : Adjoin 0 (visits words) (stopFrom 0 words) := adjoin_visitsFrom 0 words

theorem stopFrom_le_length (words : List UInt16) : stopFrom 0 words ≤ words.length := by
  unfold stopFrom
  omega

theorem prefix_of_mem_visits {v : Visit} (h : v ∈ visits words) : v.words <+: words.drop v.address := by
  have hprefix := (adjoin_visits words).prefix_drop (leftover words) v h
  rwa [visits, flatMap_words_visitsFrom_append_leftover] at hprefix

/-- The positions of a walk: the first word, and from each one on the word behind the literals that were asked
for there, as long as there are as many. -/
inductive WalkPosition (words : List UInt16) : Nat → Prop
  | start : WalkPosition words 0
  | next {position : Nat} (h : WalkPosition words position)
    (hroom : position + 1 + Instruction.needAt words position ≤ words.length) :
    WalkPosition words (position + 1 + Instruction.needAt words position)

theorem decode_of_mem_visits {v : Visit} (h : v ∈ visits words) :
    v.words.length = 1 + Instruction.needAt words v.address ∧
      match v.instruction? with
      | some inst => v.words.length = inst.size ∧
        ∃ rest, Instruction.decode (words.drop v.address) = .instruction inst rest
      | none => ∃ rest, Instruction.decode (words.drop v.address) = .skipped rest := by
  have hsound := sound_of_mem_visitsFrom v h
  have hbounds := (adjoin_visits words).bounds v h
  have hstop := stopFrom_le_length words
  have hcases := Instruction.decode_drop_cases (show v.address < words.length by omega)
  obtain ⟨more, hmore⟩ := prefix_of_mem_visits h
  unfold Visit.Sound at hsound
  cases hinst : v.instruction? with
  | some inst =>
    rw [hinst] at hsound
    obtain ⟨hplain, hwords⟩ := hsound
    have hlength := Instruction.length_words_of_plain hplain
    -- The words from this address on begin with those of the visit, which decode to its instruction.
    have hdecode : Instruction.decode (words.drop v.address) = .instruction inst more := by
      rw [← hmore, hwords, Instruction.decode_words_append hplain]
    rw [hdecode] at hcases
    rcases hcases with ⟨-, hfalse⟩ | ⟨-, -, found, rest, hsize, hsame⟩ | ⟨-, -, hfalse⟩
    · contradiction
    · obtain ⟨rfl, -⟩ := Instruction.Decoded.instruction.inj hsame
      rw [hwords, hlength]
      exact ⟨hsize, rfl, more, hdecode⟩
    · contradiction
  | none =>
    rw [hinst] at hsound
    obtain ⟨word, hwords, hbasic, hjsr⟩ := hsound
    have hdecode : Instruction.decode (words.drop v.address) = .skipped more := by
      rw [← hmore, hwords]
      exact Instruction.decode_cons_eq_skipped_iff.2 ⟨hbasic, hjsr, rfl⟩
    rw [hdecode] at hcases
    rcases hcases with ⟨-, hfalse⟩ | ⟨-, -, found, rest, -, hfalse⟩ | ⟨-, hneed, -⟩
    · contradiction
    · contradiction
    · rw [hneed, hwords]
      exact ⟨rfl, more, hdecode⟩

theorem Adjoin.walkPosition {address stop : Nat} {vs : List Visit} (h : Adjoin address vs stop)
    (hstart : WalkPosition words address)
    (hvs : ∀ v ∈ vs, v.words.length = 1 + Instruction.needAt words v.address) (hstop : stop ≤ words.length) :
    (∀ v ∈ vs, WalkPosition words v.address) ∧ WalkPosition words stop := by
  induction vs generalizing address with
  | nil =>
    change address = stop at h
    exact ⟨by simp, h ▸ hstart⟩
  | cons v rest ih =>
    obtain ⟨rfl, -, hrest⟩ := h
    obtain ⟨hlength, hlengths⟩ := List.forall_mem_cons.1 hvs
    have hle := hrest.length_le
    rw [hlength, ← Nat.add_assoc] at hrest hle
    obtain ⟨hpositions, hlast⟩ := ih hrest (.next hstart (by omega)) hlengths
    exact ⟨List.forall_mem_cons.2 ⟨hstart, hpositions⟩, hlast⟩

theorem walkPosition_visits (words : List UInt16) :
    (∀ v ∈ visits words, WalkPosition words v.address) ∧ WalkPosition words (stopFrom 0 words) :=
  (adjoin_visits words).walkPosition .start (fun _ hv => (decode_of_mem_visits hv).1) (stopFrom_le_length words)

theorem length_lt_of_stopFrom (h : stopFrom 0 words < words.length) :
    words.length < stopFrom 0 words + 1 + Instruction.needAt words (stopFrom 0 words) := by
  have hleftover := drop_stopFrom_append words []
  rw [List.append_nil, List.append_nil] at hleftover
  have hcases := Instruction.decode_drop_cases h
  rw [hleftover, decode_leftover] at hcases
  rcases hcases with ⟨hshort, -⟩ | ⟨-, -, inst, rest, -, hfalse⟩ | ⟨-, -, hfalse⟩
  · exact hshort
  · contradiction
  · contradiction

theorem eq_or_exists_of_walkPosition {position : Nat} (h : WalkPosition words position) :
    position = stopFrom 0 words ∨ ∃ v ∈ visits words, v.address = position := by
  induction h with
  | start => exact (adjoin_visits words).eq_or_exists_start
  | @next position _ hroom ih =>
    rcases ih with rfl | ⟨v, hv, rfl⟩
    · have hshort := length_lt_of_stopFrom (show stopFrom 0 words < words.length by omega)
      omega
    · have hnext := (adjoin_visits words).eq_or_exists_next v hv
      rwa [(decode_of_mem_visits hv).1, ← Nat.add_assoc] at hnext

/-- A walk that ends before the last word ends at the first position at which too few words are left. -/
theorem isLeast_stopFrom (h : stopFrom 0 words < words.length) :
    IsLeast {p | WalkPosition words p ∧ p < words.length ∧ words.length < p + 1 + Instruction.needAt words p}
      (stopFrom 0 words) := by
  refine ⟨⟨(walkPosition_visits words).2, h, length_lt_of_stopFrom h⟩, ?_⟩
  rintro p ⟨hposition, -, hshort⟩
  rcases eq_or_exists_of_walkPosition hposition with rfl | ⟨v, hv, rfl⟩
  · exact Nat.le_refl _
  · -- At every other position there is a visit, and it has all its words.
    have hlength := (decode_of_mem_visits hv).1
    have hbounds := (adjoin_visits words).bounds v hv
    omega

theorem Instruction.needAt_le (words : List UInt16) (position : Nat) : needAt words position ≤ 2 := by
  unfold needAt
  split
  · rename_i word _
    have hle : (⟨word, []⟩ : Code).need ≤ (⟨word, []⟩ : Code).fields.length := List.countP_le_length
    have hfields : (⟨word, []⟩ : Code).fields.length ≤ 2 := by
      unfold Code.fields
      split_ifs <;> simp
    exact hle.trans hfields
  · exact Nat.zero_le 2

def Listing.Covers (l : Listing) (address : Nat) : Prop :=
  l.address ≤ address ∧ address < l.address + l.words.length

def IsSkipped (words : List UInt16) (address : Nat) : Prop :=
  WalkPosition words address ∧ ∃ word, words[address]? = some word ∧
    (⟨word, []⟩ : Code).basicOp.code = 0 ∧ (⟨word, []⟩ : Code).nonBasicOp ≠ NonBasicOp.jsr

/-- Listings that make up the words before an address, less those that are skipped. -/
structure Tiles (words : List UInt16) (listings : List Listing) (stop : Nat) : Prop where
  increasing : listings.Pairwise fun l next => l.address < next.address
  slice : ∀ l ∈ listings, l.words <+: words.drop l.address
  decoded : ∀ l ∈ listings, Instruction.decodeAt words l.address =
    .ok ⟨some l.instruction, (l.address + l.words.length : Nat), false⟩
  bounded : ∀ l ∈ listings, l.address + l.words.length ≤ stop
  covered : ∀ address < stop, (∃! l, l ∈ listings ∧ l.Covers address) ∨
    (IsSkipped words address ∧ ∀ l ∈ listings, ¬ l.Covers address)

theorem mem_filterMap_listing?_iff {vs : List Visit} {l : Listing} :
    l ∈ vs.filterMap Visit.listing? ↔
      ∃ v ∈ vs, v.instruction? = some l.instruction ∧ v.address = l.address ∧ v.words = l.words := by
  rw [List.mem_filterMap]
  refine exists_congr fun v => and_congr_right fun _ => ?_
  rw [Visit.listing?, Option.map_eq_some_iff]
  constructor
  · rintro ⟨inst, hinst, rfl⟩
    exact ⟨hinst, rfl, rfl⟩
  · rintro ⟨hinst, haddress, hwords⟩
    exact ⟨l.instruction, hinst, by rw [haddress, hwords]⟩

theorem tiles_visits (words : List UInt16) :
    Tiles words ((visits words).filterMap Visit.listing?) (stopFrom 0 words) where
  increasing := by
    rw [List.pairwise_filterMap]
    refine (adjoin_visits words).pairwise.imp_of_mem ?_
    intro v w hv hw hle l hl next hnext
    have hbounds := (adjoin_visits words).bounds v hv
    obtain ⟨-, -, rfl⟩ := Option.map_eq_some_iff.1 hl
    obtain ⟨-, -, rfl⟩ := Option.map_eq_some_iff.1 hnext
    simp only
    omega
  slice := by
    intro l hl
    obtain ⟨v, hv, -, haddress, hwords⟩ := mem_filterMap_listing?_iff.1 hl
    rw [← haddress, ← hwords]
    exact prefix_of_mem_visits hv
  decoded := by
    intro l hl
    obtain ⟨v, hv, hinst, haddress, hwords⟩ := mem_filterMap_listing?_iff.1 hl
    have hdecode := (decode_of_mem_visits hv).2
    rw [hinst] at hdecode
    obtain ⟨hsize, rest, hdecode⟩ := hdecode
    rw [← haddress, ← hwords, Instruction.decodeAt_natCast, hdecode, hsize]
  bounded := by
    intro l hl
    obtain ⟨v, hv, -, haddress, hwords⟩ := mem_filterMap_listing?_iff.1 hl
    rw [← haddress, ← hwords]
    exact ((adjoin_visits words).bounds v hv).2.2
  covered := by
    intro address hstop
    obtain ⟨v, hv, hcovers⟩ := (adjoin_visits words).exists_covering (Nat.zero_le address) hstop
    have hsame : ∀ l ∈ (visits words).filterMap Visit.listing?, l.Covers address →
        v.instruction? = some l.instruction ∧ v.address = l.address ∧ v.words = l.words := by
      intro l hl hcl
      obtain ⟨w, hw, hinst, haddress, hwords⟩ := mem_filterMap_listing?_iff.1 hl
      rw [Listing.Covers, ← haddress, ← hwords] at hcl
      obtain rfl := (adjoin_visits words).eq_of_covering hv hw hcovers hcl
      exact ⟨hinst, haddress, hwords⟩
    cases hinst : v.instruction? with
    | some inst =>
      refine .inl ⟨⟨v.address, v.words, inst⟩,
        ⟨mem_filterMap_listing?_iff.2 ⟨v, hv, hinst, rfl, rfl⟩, hcovers⟩, ?_⟩
      rintro ⟨a, ws, other⟩ ⟨hl, hcl⟩
      obtain ⟨hother, rfl, rfl⟩ := hsame _ hl hcl
      rw [hinst] at hother
      rw [Option.some.inj hother]
    | none =>
      have hsound := sound_of_mem_visitsFrom v hv
      rw [Visit.Sound, hinst] at hsound
      obtain ⟨word, hwords, hbasic, hjsr⟩ := hsound
      -- A single word is skipped, so that the address is the position itself.
      obtain rfl : address = v.address := by
        rw [hwords, List.length_singleton] at hcovers
        omega
      obtain ⟨more, hmore⟩ := prefix_of_mem_visits hv
      refine .inr ⟨⟨(walkPosition_visits words).1 v hv, word, ?_, ?_, hjsr⟩, ?_⟩
      · rw [← List.head?_drop, ← hmore, hwords]
        rfl
      · simpa [Code.isBasic] using hbasic
      · intro l hl hcl
        have hsome := (hsame l hl hcl).1
        rw [hinst] at hsome
        contradiction

/-- A walk gives the listings that tile its words up to where it ends. It ends behind the last word, or with an
error at the first position at which fewer words are left than the word there asks for, which are one or two;
and a disassembly is the texts of the listings, or that error. -/
theorem walk_tiles (words : List UInt16) :
    ∃ (listings : List Listing) (stop : Nat), Tiles words listings stop ∧ (walk words).length ≤ words.length ∧
      ((stop = words.length ∧ walk words = listings.map .ok ∧
          disassemble words = .ok (Text.stacked (listings.map Listing.text))) ∨
        (IsLeast {p | WalkPosition words p ∧ p < words.length ∧
            words.length < p + 1 + Instruction.needAt words p} stop ∧
          1 ≤ words.length - stop ∧ words.length - stop ≤ 2 ∧
          walk words = listings.map .ok ++ [.error ⟨stop, .wordsTruncated⟩] ∧
          disassemble words = .error ⟨stop, .wordsTruncated⟩)) := by
  have hcount := (adjoin_visits words).length_le
  have hfilter := List.length_filterMap_le Visit.listing? (visits words)
  have hend := stopFrom_le_length words
  have hsplit := (leftover_suffix words).length_le
  refine ⟨_, _, tiles_visits words, ?_⟩
  by_cases hleft : leftover words = []
  · have hwalk : walk words = _ := walkFrom_eq_map_ok_iff.2 ⟨hleft, rfl⟩
    have hstop : stopFrom 0 words = words.length := by
      rw [stopFrom, hleft, List.length_nil, Nat.sub_zero, Nat.zero_add]
    refine ⟨?_, .inl ⟨hstop, hwalk, disassemble_eq_ok_iff.2 ⟨_, hwalk, rfl⟩⟩⟩
    rw [hwalk, List.length_map]
    exact hfilter.trans (by omega)
  · have hwalk := walk_eq_of_leftover_ne_nil hleft
    have hpos := List.length_pos_iff.2 hleft
    have hstop : stopFrom 0 words < words.length := by
      unfold stopFrom
      omega
    have hshort := length_lt_of_stopFrom hstop
    have hneed := Instruction.needAt_le words (stopFrom 0 words)
    refine ⟨?_, .inr ⟨isLeast_stopFrom hstop, by omega, by omega, hwalk,
      disassemble_eq_error_iff.2 ⟨hleft, rfl⟩⟩⟩
    rw [hwalk, List.length_append, List.length_map, List.length_singleton]
    omega

end
end Asm16
