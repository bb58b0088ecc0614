import Asm16.Numeral
import Mathlib.Tactic.IntervalCases

/-! Digit strings read back to the number they were written from, and the hexadecimal numeral of a
word is read as that word. -/

namespace Asm16

namespace Text

theorem digitValue?_digit {d : Nat} (hd : d < 36) : digitValue? (digit d) = some d := by
  interval_cases d <;> decide

theorem digitOf?_digit {base d : Nat} (hd : d < base) (hbase : base ≤ 36) :
    digitOf? base (digit d) = some d := by
  rw [digitOf?, digitValue?_digit (by omega)]
  simpa using hd

theorem readFrom?_append (base n : Nat) (t u : Text) :
    readFrom? base n (t ++ u) = (readFrom? base n t).bind fun m => readFrom? base m u := by
  induction t generalizing n with
  | nil => rfl
  | cons b rest ih =>
    simp only [List.cons_append, readFrom?]
    cases digitOf? base b with
    | none => rfl
    | some d => exact ih _

theorem digits_of_lt {base n : Nat} (h : n < base) : digits base n = [digit n] := by
  rw [digits, dif_pos (Or.inr h)]

theorem digits_of_ge {base n : Nat} (hbase : 2 ≤ base) (h : base ≤ n) :
    digits base n = digits base (n / base) ++ [digit (n % base)] := by
  rw [digits, dif_neg (by omega)]

theorem readFrom?_digits {base : Nat} (hlow : 2 ≤ base) (hhigh : base ≤ 36) (n : Nat) :
    readFrom? base 0 (digits base n) = some n := by
  induction n using Nat.strong_induction_on with
  | _ n ih =>
    by_cases h : n < base
    · rw [digits_of_lt h, readFrom?, digitOf?_digit h hhigh]
      simp [readFrom?]
    · have hmod : n % base < base := Nat.mod_lt _ (by omega)
      rw [digits_of_ge hlow (by omega), readFrom?_append, ih _ (Nat.div_lt_self (by omega) hlow)]
      simp only [Option.bind_some, readFrom?, digitOf?_digit hmod hhigh]
      rw [Nat.mul_comm, Nat.div_add_mod]

theorem exists_digit_of_mem_digits {base n : Nat} (hbase : 2 ≤ base) {b : UInt8}
    (hb : b ∈ digits base n) : ∃ d < base, b = digit d := by
  induction n using Nat.strong_induction_on with
  | _ n ih =>
    by_cases h : n < base
    · rw [digits_of_lt h, List.mem_singleton] at hb
      exact ⟨n, h, hb⟩
    · rw [digits_of_ge hbase (by omega), List.mem_append, List.mem_singleton] at hb
      rcases hb with hb | rfl
      · exact ih _ (Nat.div_lt_self (by omega) hbase) hb
      · exact ⟨_, Nat.mod_lt _ (by omega), rfl⟩

theorem digits_ne_nil (base n : Nat) : digits base n ≠ [] := by
  rw [digits]
  split <;> simp

theorem length_digits_le {base : Nat} (hbase : 2 ≤ base) {k n : Nat} (h : n < base ^ (k + 1)) :
    (digits base n).length ≤ k + 1 := by
  induction k generalizing n with
  | zero =>
    rw [digits_of_lt (by simpa using h)]
    simp
  | succ k ih =>
    by_cases hn : n < base
    · rw [digits_of_lt hn]
      simp
    · have hdiv : n / base < base ^ (k + 1) := by
        rw [Nat.div_lt_iff_lt_mul (by omega), ← Nat.pow_succ]
        exact h
      rw [digits_of_ge hbase (by omega), List.length_append, List.length_singleton]
      have := ih hdiv
      omega

end Text

namespace Numeral

theorem splitBase_hex {t : Text} (h : t ≠ []) : splitBase (ascii "0x" ++ t) = (16, t) := by
  obtain ⟨d, ds, rfl⟩ := List.exists_cons_of_ne_nil h
  rfl

theorem value?_hex (n : Nat) : value? (ascii "0x" ++ Text.hex n) = some n := by
  have hsplit : splitBase (ascii "0x" ++ Text.hex n) = (16, Text.hex n) :=
    splitBase_hex (Text.digits_ne_nil 16 n)
  change Text.readFrom? _ 0 _ = some n
  rw [hsplit]
  exact Text.readFrom?_digits (show 2 ≤ 16 by decide) (show 16 ≤ 36 by decide) n

theorem word?_hex (w : UInt16) : word? (ascii "0x" ++ Text.hex w.toNat) = some w := by
  rw [word?, value?_hex]
  simp [w.toNat_lt]

end Numeral
end Asm16
