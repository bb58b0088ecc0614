import Asm16.Proofs.CodePoint
import Asm16.Text.Upper

/-! Upper case of text. A text is put into upper case unit by unit, so that ASCII bytes keep their places among the
others. Of the letters outside ASCII only the long s, U+017F, and the dotless i, U+0131, have a capital within it. -/

namespace Asm16.Text

theorem capital_longS : capital 0x17f = 0x53 := by decide +kernel

theorem capital_dotlessI : capital 0x131 = 0x49 := by decide +kernel

theorem capital_of_ne {n : Nat} (h : 0x80 ≤ n) (hs : n ≠ 0x17f) (hi : n ≠ 0x131) : 0x80 ≤ capital n := by
  -- In a row the first capital is the least, and the rows with one in ASCII are of a single letter.
  have hrows : upperRows.all (fun row => 0x80 ≤ row.1 + row.2.2.2 ||
      row.1 == row.2.1 && (row.1 == 0x17f || row.1 == 0x131)) = true := by decide +kernel
  unfold capital
  split
  · rename_i low high step distance hfind
    have hrow := List.all_eq_true.1 hrows _ (List.mem_of_find?_eq_some hfind)
    have hin := List.find?_some hfind
    simp only [inRow, Bool.and_eq_true, Bool.or_eq_true, decide_eq_true_eq, beq_iff_eq] at hrow hin
    omega
  · exact h

theorem isAscii_append {t u : Text} : isAscii (t ++ u) = true ↔ isAscii t = true ∧ isAscii u = true := by
  rw [isAscii, List.all_append, Bool.and_eq_true]
  rfl

theorem isAscii_of_forall {t : Text} (h : ∀ b ∈ t, b < 0x80) : isAscii t = true := by
  rw [isAscii, List.all_eq_true]
  intro b hb
  exact decide_eq_true (h b hb)

theorem isAscii_cons_of_le {b : UInt8} (h : 0x80 ≤ b) (t : Text) : isAscii (b :: t) = false := by
  rw [isAscii, List.all_cons, decide_eq_false (UInt8.not_lt.2 h), Bool.false_and]

theorem isAscii_utf8 {n : Nat} (h : 0x80 ≤ n) : isAscii (utf8 n) = false := by
  have hlast : isAscii [UInt8.ofNat (0x80 + n % 64)] = false := by
    apply isAscii_cons_of_le
    rw [UInt8.le_iff_toNat_le, UInt8.toNat_ofNat_of_lt' (by change _ < 256; omega)]
    exact Nat.le_add_right ..
  have hend : ∃ start, utf8 n = start ++ [UInt8.ofNat (0x80 + n % 64)] := by
    unfold utf8
    rw [if_neg (Nat.not_lt.2 h)]
    split
    · exact ⟨[_], rfl⟩
    split
    · exact ⟨[_, _], rfl⟩
    · exact ⟨[_, _, _], rfl⟩
  obtain ⟨start, hstart⟩ := hend
  rw [Bool.eq_false_iff, hstart, ne_eq, isAscii_append, hlast]
  exact fun hboth => Bool.false_ne_true hboth.2

theorem CodePoint.upper_ofAscii {b : UInt8} (h : b < 0x80) : (ofAscii b).upper = [upperByte b] := if_pos h

theorem upper_of_isAscii {t : Text} (h : isAscii t = true) : upper t = t.map upperByte := if_pos h

theorem upper_eq_flatMap (t : Text) : upper t = (codePoints t).flatMap CodePoint.upper := by
  by_cases h : isAscii t = true
  · have hbytes : ∀ b ∈ t, (CodePoint.ofAscii b).upper = [upperByte b] := fun b hb =>
      CodePoint.upper_ofAscii (of_decide_eq_true (List.all_eq_true.1 h b hb))
    rw [upper_of_isAscii h, codePoints_of_isAscii h, List.flatMap_map, List.flatMap_congr hbytes]
    exact List.map_eq_flatMap
  · exact if_neg h

theorem upper_next (lead : UInt8) (rest : Text) :
    upper (lead :: rest) = (CodePoint.next lead rest).1.upper ++ upper (CodePoint.next lead rest).2 := by
  rw [upper_eq_flatMap, codePoints_cons, List.flatMap_cons, upper_eq_flatMap]

theorem upper_cons {b : UInt8} (h : b < 0x80) (rest : Text) : upper (b :: rest) = upperByte b :: upper rest := by
  rw [upper_next, CodePoint.next_ascii h, CodePoint.upper_ofAscii h]
  rfl

theorem le_of_isTail {b : UInt8} (h : CodePoint.isTail b = true) : 0x80 ≤ b :=
  of_decide_eq_true (Bool.and_eq_true_iff.1 h).1

theorem upperByte_mem_upper {b : UInt8} (hb : b < 0x80) {t : Text} (h : b ∈ t) : upperByte b ∈ upper t := by
  have hne : ∀ {c : UInt8}, 0x80 ≤ c → b ≠ c := by
    rintro c hc rfl
    exact UInt8.not_lt.2 hc hb
  induction t using units_induction with
  | nil => contradiction
  | cons lead rest ih =>
    rw [upper_next, List.mem_append]
    have hleads := CodePoint.leads_next lead rest
    generalize (CodePoint.next lead rest).1 = c at *
    generalize (CodePoint.next lead rest).2 = after at *
    cases hleads with
    | ascii hlead =>
      rw [CodePoint.upper_ofAscii hlead]
      rcases List.mem_cons.1 h with rfl | hrest
      · exact .inl (List.mem_singleton_self _)
      · exact .inr (ih hrest)
    | stray hlead _ => exact .inr (ih (List.mem_of_ne_of_mem (hne hlead) h))
    | pair hlow _ htail =>
      have hlead : 0x80 ≤ lead := UInt8.le_trans (by decide) hlow
      have hrest := List.mem_of_ne_of_mem (hne hlead) h
      exact .inr (ih (List.mem_of_ne_of_mem (hne (le_of_isTail htail)) hrest))
    | long hlead htails _ =>
      have hrest := List.mem_of_ne_of_mem (hne (UInt8.le_trans (by decide) hlead)) h
      rcases List.mem_append.1 hrest with hmem | hmem
      · exact absurd rfl (hne (le_of_isTail (List.all_eq_true.1 htails b hmem)))
      · exact .inr (ih hmem)

theorem upperByte_lt {b : UInt8} (h : b < 0x80) : upperByte b < 0x80 := by
  have hall : ∀ b : UInt8, b < 0x80 → upperByte b < 0x80 := forall_byte (by decide +kernel)
  exact hall b h

theorem upperByte_of_le {b : UInt8} (h : 0x80 ≤ b) : upperByte b = b := by
  have hall : ∀ b : UInt8, 0x80 ≤ b → upperByte b = b := forall_byte (by decide +kernel)
  exact hall b h

theorem upperByte_idem (b : UInt8) : upperByte (upperByte b) = upperByte b := by
  revert b
  exact forall_byte (by decide +kernel)

/-- The letters of ASCII can be put into upper case before the others are. -/
theorem upper_map_upperByte (t : Text) : upper (t.map upperByte) = upper t := by
  induction t using units_induction with
  | nil => rfl
  | cons lead rest ih =>
    rw [List.map_cons]
    by_cases hlead : lead < 0x80
    · rw [CodePoint.next_ascii hlead] at ih
      rw [upper_cons (upperByte_lt hlead), upper_cons hlead, upperByte_idem, ih]
    · have hhigh : 0x80 ≤ lead := UInt8.not_lt.1 hlead
      rw [upperByte_of_le hhigh, upper_next, upper_next,
        CodePoint.next_map (fun _ => upperByte_lt) (fun _ => upperByte_of_le) hhigh, ih]

end Asm16.Text
