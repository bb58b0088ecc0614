import Asm16.Text.CodePoint
import Mathlib.Data.List.Basic

/-! Text divided into code points. What a unit of a text is depends on the bytes from its lead on, and an ASCII byte
is a unit of its own wherever it stands. -/

namespace Asm16.Text

theorem forall_byte {P : UInt8 → Prop} (h : ∀ n < 256, P (UInt8.ofNat n)) (b : UInt8) : P b := by
  have hb := h b.toNat b.toNat_lt
  rwa [UInt8.ofNat_toNat] at hb

namespace CodePoint

def ofAscii (b : UInt8) : CodePoint := ⟨[b], some b.toNat⟩

theorem next_ascii {lead : UInt8} (h : lead < 0x80) (rest : Text) : next lead rest = (ofAscii lead, rest) := if_pos h

/-- The unit that starts with a lead, and what follows it. Only a pair is below U+0800. -/
inductive Leads (lead : UInt8) : Text → CodePoint → Text → Prop
  | ascii {rest : Text} (hlead : lead < 0x80) : Leads lead rest (ofAscii lead) rest
  | stray {rest : Text} (hlead : 0x80 ≤ lead)
    (halone : 0xc2 ≤ lead → lead ≤ 0xdf → rest.head?.any isTail = false) :
    Leads lead rest ⟨[lead], none⟩ rest
  | pair {b : UInt8} {rest : Text} (hlow : 0xc2 ≤ lead) (hhigh : lead ≤ 0xdf) (hb : isTail b = true) :
    Leads lead (b :: rest) ⟨[lead, b], some (lead.toNat % 32 * 64 + low6 b)⟩ rest
  | long {tails rest : Text} {n : Nat} (hlead : 0xe0 ≤ lead) (htails : tails.all isTail = true) (hn : 0x800 ≤ n) :
    Leads lead (tails ++ rest) ⟨lead :: tails, some n⟩ rest

theorem between_iff {b low high : UInt8} : (low ≤ b && b ≤ high) = true ↔ low ≤ b ∧ b ≤ high := by
  rw [Bool.and_eq_true, decide_eq_true_eq, decide_eq_true_eq]

theorem isTail_iff {b : UInt8} : isTail b = true ↔ 0x80 ≤ b.toNat ∧ b.toNat ≤ 0xbf := by
  simp [isTail, UInt8.le_iff_toNat_le]

theorem tail_of_second {lead b first last low high : UInt8} (hlow : 0x80 ≤ low) (hhigh : high ≤ 0xbf)
    (h : (if lead = first then low ≤ b && b ≤ 0xbf
      else if lead = last then 0x80 ≤ b && b ≤ high else isTail b) = true) :
    isTail b = true ∧ (lead = first → low ≤ b) := by
  split at h
  · obtain ⟨hb, htop⟩ := between_iff.1 h
    exact ⟨between_iff.2 ⟨UInt8.le_trans hlow hb, htop⟩, fun _ => hb⟩
  · rename_i hfirst
    refine ⟨?_, fun heq => absurd heq hfirst⟩
    split at h
    · obtain ⟨hb, htop⟩ := between_iff.1 h
      exact between_iff.2 ⟨hb, UInt8.le_trans htop hhigh⟩
    · exact h

theorem scalar_of_three {lead b : UInt8} (hlead : 0xe0 ≤ lead) (hthree : lead ≤ 0xef)
    (hfirst : lead = 0xe0 → 0xa0 ≤ b) (hb : isTail b = true) (c : UInt8) :
    0x800 ≤ lead.toNat % 16 * 4096 + low6 b * 64 + low6 c := by
  rw [← UInt8.toNat_inj, UInt8.le_iff_toNat_le] at hfirst
  rw [UInt8.le_iff_toNat_le] at hlead hthree
  rw [isTail_iff] at hb
  simp only [UInt8.reduceToNat, low6] at *
  omega

theorem scalar_of_four {lead b : UInt8} (hlead : 0xf0 ≤ lead) (hfour : lead ≤ 0xf4)
    (hfirst : lead = 0xf0 → 0x90 ≤ b) (hb : isTail b = true) (c d : UInt8) :
    0x800 ≤ lead.toNat % 8 * 262144 + low6 b * 4096 + low6 c * 64 + low6 d := by
  rw [← UInt8.toNat_inj, UInt8.le_iff_toNat_le] at hfirst
  rw [UInt8.le_iff_toNat_le] at hlead hfour
  rw [isTail_iff] at hb
  simp only [UInt8.reduceToNat, low6] at *
  omega

theorem leads_next (lead : UInt8) (rest : Text) : Leads lead rest (next lead rest).1 (next lead rest).2 := by
  unfold next
  dsimp only
  split
  · rename_i hascii
    exact .ascii hascii
  rename_i hascii
  have hlead : 0x80 ≤ lead := UInt8.not_lt.1 hascii
  split
  · rename_i hrange
    obtain ⟨hlow, hhigh⟩ := between_iff.1 hrange
    split
    · rename_i b rest
      split
      · rename_i hb
        exact .pair hlow hhigh hb
      · rename_i hb
        exact .stray hlead fun _ _ => by simpa using hb
    · rename_i hnone
      refine .stray hlead fun _ _ => ?_
      cases rest with
      | nil => rfl
      | cons b rest => exact absurd rfl (hnone b rest)
  rename_i hpair
  -- From here on a unit that is not complete is its lead alone, which no single tail would have completed.
  have halone : Leads lead rest ⟨[lead], none⟩ rest :=
    .stray hlead fun hlow hhigh => absurd (between_iff.2 ⟨hlow, hhigh⟩) hpair
  split
  · rename_i hrange
    obtain ⟨hlow, hhigh⟩ := between_iff.1 hrange
    split
    · rename_i b c rest
      split
      · rename_i hboth
        obtain ⟨hb, hc⟩ := Bool.and_eq_true_iff.1 hboth
        obtain ⟨htail, hfirst⟩ := tail_of_second (by decide) (by decide) hb
        have htails : [b, c].all isTail = true := by simp [htail, hc]
        exact .long hlow htails (scalar_of_three hlow hhigh hfirst htail c)
      · exact halone
    · exact halone
  split
  · rename_i hrange
    obtain ⟨hlow, hhigh⟩ := between_iff.1 hrange
    split
    · rename_i b c d rest
      split
      · rename_i hall
        obtain ⟨hboth, hd⟩ := Bool.and_eq_true_iff.1 hall
        obtain ⟨hb, hc⟩ := Bool.and_eq_true_iff.1 hboth
        obtain ⟨htail, hfirst⟩ := tail_of_second (by decide) (by decide) hb
        have htails : [b, c, d].all isTail = true := by simp [htail, hc, hd]
        exact .long (UInt8.le_trans (by decide) hlow) htails
          (scalar_of_four hlow hhigh hfirst htail c d)
      · exact halone
    · exact halone
  · exact halone

theorem not_second {b : UInt8} (hb : b < 0x80) (lead : UInt8) :
    isTail b = false ∧ isSecondOfThree lead b = false ∧ isSecondOfFour lead b = false := by
  have hbelow : ∀ {low high : UInt8}, 0x80 ≤ low → (decide (low ≤ b) && decide (b ≤ high)) = false := by
    intro low high hlow
    rw [Bool.and_eq_false_iff, decide_eq_false_iff_not]
    exact .inl fun hle => absurd hb (UInt8.not_lt.2 (UInt8.le_trans hlow hle))
  have htail : isTail b = false := hbelow (by decide)
  refine ⟨htail, ?_, ?_⟩
  · unfold isSecondOfThree
    split
    · exact hbelow (by decide)
    split
    · exact hbelow (by decide)
    · exact htail
  · unfold isSecondOfFour
    split
    · exact hbelow (by decide)
    split
    · exact hbelow (by decide)
    · exact htail

theorem next_append {b : UInt8} (hb : b < 0x80) (lead : UInt8) (rest u : Text) :
    next lead (rest ++ b :: u) = ((next lead rest).1, (next lead rest).2 ++ b :: u) := by
  obtain ⟨htail, hthree, hfour⟩ := not_second hb lead
  unfold next
  dsimp only
  -- Where fewer bytes are left than the lead asks for, the unit would have to take in the ASCII byte, and fails.
  split
  · rfl
  split
  · match rest with
    | [] => simp [htail]
    | x :: rest =>
      simp only [List.cons_append]
      split <;> rfl
  split
  · match rest with
    | [] => cases u <;> simp [hthree]
    | [x] => simp [htail]
    | x :: y :: rest =>
      simp only [List.cons_append]
      split <;> rfl
  split
  · match rest with
    | [] => match u with
      | [] | [_] => rfl
      | c :: d :: u => simp [hfour]
    | [x] => cases u <;> simp [htail]
    | [x, y] => simp [htail]
    | x :: y :: z :: rest =>
      simp only [List.cons_append]
      split <;> rfl
  · rfl

/-- A unit that is not ASCII is made of the bytes that are not, so it stays if only others are replaced. -/
theorem next_map {f : UInt8 → UInt8} (hlow : ∀ b < 0x80, f b < 0x80)
    (hhigh : ∀ b, 0x80 ≤ b → f b = b) {lead : UInt8} (hlead : 0x80 ≤ lead) (rest : Text) :
    next lead (rest.map f) = ((next lead rest).1, (next lead rest).2.map f) := by
  have hsame : ∀ b, (isTail b = true → f b = b) ∧ isTail (f b) = isTail b ∧
      isSecondOfThree lead (f b) = isSecondOfThree lead b ∧ isSecondOfFour lead (f b) = isSecondOfFour lead b := by
    intro b
    by_cases hb : b < 0x80
    · obtain ⟨htail, hthree, hfour⟩ := not_second hb lead
      obtain ⟨htail', hthree', hfour'⟩ := not_second (hlow b hb) lead
      simp [htail, hthree, hfour, htail', hthree', hfour']
    · simp [hhigh b (UInt8.not_lt.1 hb)]
  unfold next
  simp only [UInt8.not_lt.2 hlead, if_false]
  split
  · match rest with
    | [] => rfl
    | b :: rest =>
      obtain ⟨hb, htail, -, -⟩ := hsame b
      simp only [List.map_cons, htail]
      split
      · rename_i h
        rw [hb h]
      · rfl
  split
  · match rest with
    | [] | [_] => rfl
    | b :: c :: rest =>
      obtain ⟨hb, -, hthree, -⟩ := hsame b
      obtain ⟨hc, htail, -, -⟩ := hsame c
      simp only [List.map_cons, hthree, htail]
      split
      · rename_i h
        obtain ⟨hsecond, hthird⟩ := Bool.and_eq_true_iff.1 h
        rw [hb (tail_of_second (by decide) (by decide) hsecond).1, hc hthird]
      · rfl
  split
  · match rest with
    | [] | [_] | [_, _] => rfl
    | b :: c :: d :: rest =>
      obtain ⟨hb, -, -, hfour⟩ := hsame b
      obtain ⟨hc, htail, -, -⟩ := hsame c
      obtain ⟨hd, htail', -, -⟩ := hsame d
      simp only [List.map_cons, hfour, htail, htail']
      split
      · rename_i h
        obtain ⟨hboth, hfourth⟩ := Bool.and_eq_true_iff.1 h
        obtain ⟨hsecond, hthird⟩ := Bool.and_eq_true_iff.1 hboth
        rw [hb (tail_of_second (by decide) (by decide) hsecond).1, hc hthird, hd hfourth]
      · rfl
  · rfl

end CodePoint

theorem units_induction {P : Text → Prop} (nil : P [])
    (cons : ∀ lead rest, P (CodePoint.next lead rest).2 → P (lead :: rest)) (t : Text) : P t := by
  -- A unit takes up to four bytes, so the induction is on how many bytes are left.
  induction hlength : t.length using Nat.strongRecOn generalizing t with
  | _ n ih =>
    cases t with
    | nil => exact nil
    | cons lead rest =>
      refine cons lead rest (ih _ ?_ _ rfl)
      rw [← hlength]
      exact Nat.lt_succ_of_le (CodePoint.length_next_le lead rest)

theorem codePointsFrom_eq (done : List CodePoint) (t : Text) :
    codePointsFrom done t = done.reverse ++ codePoints t := by
  induction t using units_induction generalizing done with
  | nil => simp [codePoints, codePointsFrom]
  | cons lead rest ih =>
    rw [codePoints, codePointsFrom, codePointsFrom, ih, ih [(CodePoint.next lead rest).1], List.reverse_cons,
      List.append_assoc]
    rfl

theorem codePoints_nil : codePoints [] = [] := by
  rw [codePoints, codePointsFrom]
  rfl

theorem codePoints_cons (b : UInt8) (rest : Text) :
    codePoints (b :: rest) = (CodePoint.next b rest).1 :: codePoints (CodePoint.next b rest).2 := by
  rw [codePoints, codePointsFrom, codePointsFrom_eq]
  rfl

theorem codePoints_append {b : UInt8} (hb : b < 0x80) (t u : Text) :
    codePoints (t ++ b :: u) = codePoints t ++ codePoints (b :: u) := by
  induction t using units_induction with
  | nil => rw [List.nil_append, codePoints_nil, List.nil_append]
  | cons lead rest ih =>
    rw [List.cons_append, codePoints_cons, codePoints_cons, CodePoint.next_append hb, ih, List.cons_append]

theorem codePoints_of_isAscii {t : Text} (h : isAscii t = true) : codePoints t = t.map CodePoint.ofAscii := by
  induction t with
  | nil => exact codePoints_nil
  | cons b rest ih =>
    obtain ⟨hb, hrest⟩ := Bool.and_eq_true_iff.1 h
    rw [codePoints_cons, CodePoint.next_ascii (of_decide_eq_true hb), ih hrest, List.map_cons]

end Asm16.Text
